import MetaSecurity.Packages.Chksec

/-!
# What the table of all packages says of a package

The comment at the top of rpm-chksec.sh calls the row of a package a summary of the rows for its
files, to be looked up by calling the script with the package. The variables that the row is made
from are a fold over these rows: red cells count, except those of executables that are shared
objects and not position independent executables.
-/

namespace MetaSecurity.Packages

open Library Shell

/-! ## The rows for the files of a package -/

/-- The row on a line. -/
def Line.row? : Line → Option Row
  | .row r => some r
  | _ => none

/-- A file that could not be read. -/
def Line.isRetest : Line → Bool
  | .retest _ => true
  | _ => false

/-- A row with a red cell that counts. -/
def Row.faulty (r : Row) : Bool :=
  r.relro.color = .red || (r.pie.color = .red && r.pie.value ≠ .dso)

/-- What a row means for the variables. -/
def tallyRow (r : Row) (v : Vars) : Vars where
  skipCurrent := v.skipCurrent
  relroSum := v.relroSum && r.relro.color ≠ .red
  pieSum := v.pieSum && !(r.pie.color = .red && r.pie.value ≠ .dso)
  appSum := if r.faulty then some r.kind else v.appSum

/-- What a line means for them. -/
def absorb (v : Vars) : Line → Vars
  | .row r => tallyRow r v
  | .retest _ => { v with skipCurrent := true }
  | _ => v

/-- The variables see what is printed. -/
theorem tally_eq (path : Text) (kind : Kind) (relro : Relro) (pie : Pie) (v : Vars) :
    tally kind relro pie v = tallyRow (detail path kind relro pie) v := by
  cases kind <;> cases relro <;> cases pie <;>
    simp [tally, tallyRow, detail, Row.faulty, Kind.exposed]

/-- What is printed for a file when the script is called with its package. -/
def printedFor (host : Host) (daemons : List Text) (f : Text) : List Line :=
  (checkFile .single host [] daemons f unset).1

section

variable {host : Host} {package : Text} {daemons : List Text}

/-- With the name of a package no variable changes, and the name does not matter. -/
theorem checkFile_single (package : Text) (f : Text) (v : Vars) :
    checkFile .single host package daemons f v = (printedFor host daemons f, v) := by
  unfold printedFor checkFile
  dsimp only
  split
  · rfl
  split
  · rfl
  split
  · rfl
  split
  · rfl
  · rfl

theorem checkFile_all (f : Text) (v : Vars) :
    (checkFile .all host package daemons f v).2 =
      (printedFor host daemons f).foldl absorb v := by
  unfold printedFor checkFile
  dsimp only
  split
  · rfl
  split
  · rfl
  split
  · rfl
  split
  · rfl
  · exact tally_eq ..

theorem checkFiles_single (files : List Text) (v : Vars) :
    checkFiles .single host package daemons files v =
      (files.flatMap (printedFor host daemons), v) := by
  induction files with
  | nil => rfl
  | cons f files ih => simp only [checkFiles, checkFile_single, ih, List.flatMap_cons]

/-- With `--all` the variables take in the lines that would be printed for the package. -/
theorem checkFiles_all (files : List Text) (v : Vars) :
    (checkFiles .all host package daemons files v).2 =
      (files.flatMap (printedFor host daemons)).foldl absorb v := by
  induction files generalizing v with
  | nil => rfl
  | cons f files ih =>
      rw [List.flatMap_cons, List.foldl_append, ← @checkFile_all host package]
      exact ih _

end

/-! ## The fold -/

/-- The rows among some lines. -/
def rows (printed : List Line) : List Row := printed.filterMap Line.row?

/-- What the lines of a package come to. -/
structure Told (printed : List Line) (v v' : Vars) : Prop where
  skip : v'.skipCurrent = (v.skipCurrent || printed.any Line.isRetest)
  relro : v'.relroSum = (v.relroSum && (rows printed).all fun r => r.relro.color ≠ .red)
  pie : v'.pieSum =
    (v.pieSum && (rows printed).all fun r => !(r.pie.color = .red && r.pie.value ≠ .dso))
  app : v'.appSum = (((rows printed).filter Row.faulty).getLast?.map Row.kind).or v.appSum

theorem told_foldl (printed : List Line) (v : Vars) : Told printed v (printed.foldl absorb v) := by
  induction printed generalizing v with
  | nil => exact ⟨by simp, by simp [rows], by simp [rows], by simp [rows]⟩
  | cons line printed ih =>
      obtain ⟨hskip, hrelro, hpie, happ⟩ := ih (absorb v line)
      cases line with
      | notInstalled package => exact ⟨hskip, hrelro, hpie, happ⟩
      | daemonRules file => exact ⟨hskip, hrelro, hpie, happ⟩
      | retest what =>
          refine ⟨?_, hrelro, hpie, happ⟩
          rw [List.foldl_cons, hskip]
          simp [absorb, Line.isRetest]
      | row r =>
          have hrows : rows (Line.row r :: printed) = r :: rows printed := rfl
          refine ⟨hskip, ?_, ?_, ?_⟩
          · rw [List.foldl_cons, hrelro, hrows, List.all_cons, ← Bool.and_assoc]
            rfl
          · rw [List.foldl_cons, hpie, hrows, List.all_cons, ← Bool.and_assoc]
            rfl
          · rw [List.foldl_cons, happ, hrows]
            show _ = ((((r :: rows printed).filter Row.faulty).getLast?.map Row.kind).or v.appSum)
            cases hfaulty : r.faulty with
            | false =>
                rw [List.filter_cons_of_neg (by simp [hfaulty])]
                simp [absorb, tallyRow, hfaulty]
            | true =>
                rw [List.filter_cons_of_pos hfaulty]
                cases hlater : (rows printed).filter Row.faulty with
                | nil => simp [absorb, tallyRow, hfaulty]
                | cons other others =>
                    rw [List.getLast?_cons_cons,
                      List.getLast?_eq_some_getLast (List.cons_ne_nil other others)]
                    rfl

/-! ## The tables -/

/-- The loop over all packages comes to each of them. -/
theorem runAll_getElem? (host : Host) (package : Text) (before after : List Text) (v : Vars) :
    ∃ v', (runAll host (before ++ package :: after) v)[before.length]? =
      some (summarize host package v').1 := by
  induction before generalizing v with
  | nil => exact ⟨v, rfl⟩
  | cons other before ih => exact ih _

section

variable {host : Host} {package : Text}

/-- What is printed for a package that is installed. -/
theorem runSingle_installed (hname : packageName package = package) {files : List Text}
    (hinstalled : host.rpm package = some files) :
    runSingle host [package] = ((files.filter fun f => (daemonsIn host f).2).map Line.daemonRules ++
      files.flatMap (printedFor host (daemons host files)), 0) := by
  simp [runSingle, doOne, hname, hinstalled, checkFiles_single]

/-- Notes on init scripts are no rows. -/
theorem rows_daemonRules (notes : List Text) (printed : List Line) :
    rows (notes.map Line.daemonRules ++ printed) = rows printed := by
  induction notes with
  | nil => rfl
  | cons note notes ih => exact ih

theorem any_isRetest_daemonRules (notes : List Text) (printed : List Line) :
    (notes.map Line.daemonRules ++ printed).any Line.isRetest = printed.any Line.isRetest := by
  induction notes with
  | nil => rfl
  | cons note notes ih => exact ih

/-- What `do_one` leaves for the row of a package that is installed. -/
theorem told_summarize {files : List Text} (hname : packageName package = package)
    (hinstalled : host.rpm package = some files) (v : Vars) :
    Told (runSingle host [package]).1 unset (summarize host package v).2 ∧
      (summarize host package v).1.2 =
        if host.doubleBracket && (summarize host package v).2.skipCurrent then none
        else some (summary (summarize host package v).2) := by
  refine ⟨?_, rfl⟩
  have hvars : (summarize host package v).2 =
      (files.flatMap (printedFor host (daemons host files))).foldl absorb unset := by
    simp only [summarize, doOne, hinstalled]
    exact checkFiles_all files unset
  obtain ⟨hskip, hrelro, hpie, happ⟩ :=
    told_foldl (files.flatMap (printedFor host (daemons host files))) unset
  rw [runSingle_installed hname hinstalled, hvars]
  exact ⟨by rw [any_isRetest_daemonRules]; exact hskip, by rw [rows_daemonRules]; exact hrelro,
    by rw [rows_daemonRules]; exact hpie, by rw [rows_daemonRules]; exact happ⟩

end

/-- Some line asks for a test again. -/
theorem any_isRetest_iff {printed : List Line} :
    printed.any Line.isRetest = true ↔ ∃ f, Line.retest f ∈ printed := by
  rw [List.any_eq_true]
  constructor
  · intro h
    obtain ⟨line, hline, htest⟩ := h
    cases line with
    | retest f => exact ⟨f, hline⟩
    | notInstalled package => cases htest
    | daemonRules file => cases htest
    | row r => cases htest
  · intro h
    obtain ⟨f, hf⟩ := h
    exact ⟨_, hf, rfl⟩

/-- What the row of a package says of the lines that were taken in. -/
theorem summary_of_told {printed : List Line} {v : Vars} (h : Told printed unset v) :
    ((summary v).relro.value = true ↔ ∀ r ∈ rows printed, r.relro.color ≠ .red) ∧
      ((summary v).pie.value = true ↔
        ∀ r ∈ rows printed, r.pie.color = .red → r.pie.value = .dso) ∧
      (summary v).kind = ((rows printed).filter Row.faulty).getLast?.map Row.kind := by
  have hrelro : v.relroSum = true ↔ ∀ r ∈ rows printed, r.relro.color ≠ .red := by
    rw [h.relro]
    simp [unset]
  have hpie : v.pieSum = true ↔ ∀ r ∈ rows printed, r.pie.color = .red → r.pie.value = .dso := by
    rw [h.pie]
    simp [unset, imp_iff_not_or]
  have hvalue : (summary v).pie.value = v.pieSum := by
    unfold summary
    cases v.pieSum with
    | true => rfl
    | false => rfl
  refine ⟨hrelro, hvalue ▸ hpie, ?_⟩
  show (if v.pieSum && v.relroSum then none else v.appSum) = _
  split
  next hyes =>
    rw [Bool.and_eq_true, hpie, hrelro] at hyes
    have hnone : (rows printed).filter Row.faulty = [] := by
      refine List.filter_eq_nil_iff.mpr fun r hr => ?_
      simpa [Row.faulty] using ⟨hyes.2 r hr, hyes.1 r hr⟩
    rw [hnone]
    rfl
  · rw [h.app]
    exact Option.or_none ..

/-- The row of a package that is installed, wherever it stands in the list and whatever was looked
at before it, summarizes what the script prints when it is called with the package. There is no row
exactly if a file has to be tested again, where the shell has `[[ ]]`. RELRO is `yes` exactly if no
cell for it is red, PIE is `yes` exactly if the red cells for it are all `DSO`, and the class is
that of the last file with another red cell. -/
theorem summary_of_details {host : Host} {package : Text} (hname : packageName package = package)
    {files : List Text} (hinstalled : host.rpm package = some files) (before after : List Text)
    (v : Vars) :
    let printed := (runSingle host [package]).1
    ∃ entry, (runAll host (before ++ package :: after) v)[before.length]? = some entry ∧
      (entry.2 = none ↔ host.doubleBracket = true ∧ ∃ f, Line.retest f ∈ printed) ∧
      ∀ row ∈ entry.2,
        (row.relro.value = true ↔ ∀ r ∈ rows printed, r.relro.color ≠ .red) ∧
        (row.pie.value = true ↔ ∀ r ∈ rows printed, r.pie.color = .red → r.pie.value = .dso) ∧
        row.kind = ((rows printed).filter Row.faulty).getLast?.map Row.kind := by
  intro printed
  obtain ⟨v', hentry⟩ := runAll_getElem? host package before after v
  obtain ⟨htold, hrow⟩ := told_summarize hname hinstalled v'
  refine ⟨_, hentry, ?_, fun row hmem => ?_⟩
  · rw [hrow, htold.skip, ← any_isRetest_iff]
    show (if (host.doubleBracket && printed.any Line.isRetest) = true then none
      else some _) = none ↔ _
    rw [← Bool.and_eq_true]
    split
    next h => exact iff_of_true rfl h
    next h => exact iff_of_false (Option.some_ne_none _) h
  · rw [hrow, Option.mem_def] at hmem
    split at hmem
    · cases hmem
    · rw [← Option.some.inj hmem]
      exact summary_of_told htold

/-- A setuid program that is a shared object, of a package of its own. -/
def sharedObject : Host where
  unprivileged := false
  doubleBracket := true
  filecap := false
  which _ := []
  attributes _ := ⟨true, true, true, true, true, true, false, true, false, 0, false, false, []⟩
  rpm package := if package = "a".toList then some ["/bin/a".toList] else none

/-- The cell for the program is red, and the row of the package says yes twice. -/
theorem summary_of_details_dso :
    (rows (runSingle sharedObject ["a".toList]).1).map (fun r => r.pie) = [⟨.dso, .red⟩] ∧
      ∃ entry, (runAll sharedObject ["a".toList] unset)[0]? = some entry ∧
        ∀ row ∈ entry.2, row.relro.value = true ∧ row.pie.value = true := by
  obtain ⟨entry, hentry, -, hrow⟩ := summary_of_details
    (show packageName "a".toList = "a".toList by decide)
    (show sharedObject.rpm "a".toList = some ["/bin/a".toList] from rfl) [] [] unset
  have hrows : rows (runSingle sharedObject ["a".toList]).1 =
      [⟨"/bin/a".toList, .setuid, ⟨.full, .green⟩, ⟨.dso, .red⟩⟩] := by decide
  refine ⟨by rw [hrows]; rfl, entry, hentry, fun row hmem => ?_⟩
  obtain ⟨hrelro, hpie, -⟩ := hrow row hmem
  rw [hrows] at hrelro hpie
  exact ⟨hrelro.mpr (by simp), hpie.mpr (by simp)⟩

end MetaSecurity.Packages
