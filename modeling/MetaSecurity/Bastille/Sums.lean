import MetaSecurity.Bastille.Files
import MetaSecurity.Library.Traces

/-!
# The sums of the files that Bastille has changed

A run of Bastille begins by reading the hash `GLOBAL_SUM` from `sum.csv`. `B_set_sum` enters the
size and the checksum of a file in it and writes it again for the next run. The columns are
separated by commas and nothing is quoted, so that the hash comes back exactly if no name contains a
comma or a newline.
-/

namespace MetaSecurity.Bastille

open Library Shell Traces

/-- `my ($file,$filesize,$sum,$flag) = split /,/, $line`. -/
def readRow (line : Text) : (_ : Text) × Sum :=
  let parts := (Perl.chomp line).splitOn ','
  ⟨parts.getD 0 [], ⟨parts.getD 1 [], parts.getD 2 []⟩⟩

/-- A line is entered if there is the file that it names. -/
def enterLine (s : State) (sums : Sums) (line : Text) : Sums :=
  if s.exists (readRow line).1 then sums.insert (readRow line).1 (readRow line).2 else sums

/-- `B_read_sums`. -/
def readSums (g : Globals) (opens : Bool) (s : State) : State :=
  match s.files g.sumCsv with
  | some node =>
      if opens then { s with sums := (Perl.lines node.content).foldl (enterLine s) s.sums } else s
  | none => s

/-- The hash is read where it is empty. -/
def loadSums (g : Globals) (opens : Bool) (s : State) : State :=
  if s.sums.entries.isEmpty then readSums g opens s else s

/-- `B_check_sum`, which compares numbers. -/
def checkSum (g : Globals) (calls : SumCalls) (file : Text) (s : State) : Bool × State :=
  let s := loadSums g calls.opens s
  (s.exists file && calls.cksum.any fun (filesize, sum) =>
    (s.sums.lookup file).any fun row =>
      Perl.number row.filesize = filesize && Perl.number row.sum = sum, s)

/-! ## Rows of the file -/

/-- The text does not break the columns or the lines. -/
def isCell (t : Text) : Bool :=
  !t.contains ',' && !t.contains '\n'

/-- The sums in the hash fit in columns. -/
def Columned (sums : Sums) : Prop :=
  ∀ row ∈ sums.entries, isCell row.2.filesize = true ∧ isCell row.2.sum = true

theorem isCell_iff {t : Text} : isCell t = true ↔ ',' ∉ t ∧ '\n' ∉ t := by
  simp [isCell]

theorem isCell_decimal (n : Nat) : isCell (decimal n) = true := isCell_iff.mpr
  ⟨fun h => absurd (isDigit_of_mem_decimal h) (by decide),
    fun h => absurd (isDigit_of_mem_decimal h) (by decide)⟩

theorem isCell_nil : isCell [] = true := rfl

/-- A row of cells is read as it was written. -/
theorem readRow_sumLine {row : (_ : Text) × Sum} (hname : isCell row.1 = true)
    (hfilesize : isCell row.2.filesize = true) (hsum : isCell row.2.sum = true) :
    readRow (sumLine row) = row := by
  obtain ⟨file, filesize, sum⟩ := row
  have hsplit : (file ++ ',' :: filesize ++ ',' :: sum).splitOn ',' = [file, filesize, sum] := by
    rw [List.append_assoc, List.cons_append,
      List.splitOn_append_cons_self_of_not_mem (isCell_iff.mp hname).1,
      List.splitOn_append_cons_self_of_not_mem (isCell_iff.mp hfilesize).1,
      List.splitOn_eq_singleton (isCell_iff.mp hsum).1]
  simp only [readRow, sumLine, Perl.chomp_append_newline, hsplit]
  rfl

/-- What is read from the file are cells. -/
theorem isCell_readRow {t line : Text} (h : line ∈ Perl.lines t) :
    isCell (readRow line).1 = true ∧ isCell (readRow line).2.filesize = true ∧
      isCell (readRow line).2.sum = true := by
  have hparts : ∀ part ∈ (Perl.chomp line).splitOn ',', isCell part = true := by
    intro part hpart
    refine isCell_iff.mpr ⟨Perl.not_mem_of_mem_splitOn hpart, fun hmem => ?_⟩
    exact Perl.newline_not_mem_chomp h ((Perl.infix_of_mem_splitOn hpart).subset hmem)
  have hcolumn : ∀ i, isCell (((Perl.chomp line).splitOn ',').getD i []) = true := by
    intro i
    rw [List.getD_eq_getElem?_getD]
    cases hget : ((Perl.chomp line).splitOn ',')[i]? with
    | none => exact isCell_nil
    | some part => exact hparts part (List.mem_of_getElem? hget)
  exact ⟨hcolumn 0, hcolumn 1, hcolumn 2⟩

/-- The lines of the rows of a file, if no cell breaks them. -/
theorem lines_flatMap_sumLine {rows : List ((_ : Text) × Sum)}
    (h : ∀ row ∈ rows,
      isCell row.1 = true ∧ isCell row.2.filesize = true ∧ isCell row.2.sum = true) :
    Perl.lines (rows.flatMap sumLine) = rows.map sumLine := by
  induction rows with
  | nil => exact Perl.lines_nil
  | cons row rows ih =>
      obtain ⟨hname, hfilesize, hsum⟩ := h row List.mem_cons_self
      have hline : '\n' ∉ row.1 ++ ',' :: row.2.filesize ++ ',' :: row.2.sum := by
        simp [(isCell_iff.mp hname).2, (isCell_iff.mp hfilesize).2, (isCell_iff.mp hsum).2]
      rw [List.flatMap_cons, sumLine, List.append_assoc _ ['\n'], List.singleton_append,
        Perl.lines_append_cons hline, ih fun r hr => h r (List.mem_cons_of_mem _ hr)]
      rfl

/-! ## Writing and reading -/

theorem columned_insert {sums : Sums} (h : Columned sums) (file : Text) {sum : Sum}
    (hsum : isCell sum.filesize = true ∧ isCell sum.sum = true) :
    Columned (sums.insert file sum) := by
  intro row hrow
  rw [AList.entries_insert] at hrow
  rcases List.mem_cons.mp hrow with rfl | hrow
  · exact hsum
  · exact h row ((List.kerase_sublist ..).subset hrow)

/-- Entering rows with different names one after the other. -/
theorem mem_lookup_foldl_insert {rows : List ((_ : Text) × Sum)} (h : rows.NodupKeys)
    (sums : Sums) (file : Text) (sum : Sum) :
    sum ∈ (rows.foldl (fun sums row => sums.insert row.1 row.2) sums).lookup file ↔
      ⟨file, sum⟩ ∈ rows ∨ file ∉ rows.keys ∧ sum ∈ sums.lookup file := by
  induction rows generalizing sums with
  | nil => simp
  | cons row rows ih =>
      obtain ⟨hrow, hrows⟩ := List.nodupKeys_cons.mp h
      rw [List.foldl_cons, ih hrows]
      by_cases heq : file = row.1
      · subst heq
        have hmem : ∀ value : Sum, (⟨row.1, value⟩ : (_ : Text) × Sum) ∉ rows := by
          intro value hmem
          have hkey := List.mem_keys_of_mem hmem
          exact hrow hkey
        simp [hrow, hmem, AList.lookup_insert, Sigma.ext_iff, eq_comm]
      · have hne : ∀ value : Sum, (⟨file, value⟩ : (_ : Text) × Sum) ≠ row :=
          fun value h => heq (congrArg Sigma.fst h)
        simp [AList.lookup_insert_ne heq, hne, heq]

/-- What is read fits in columns, names included. -/
theorem columned_foldl_enterLine {t : Text} {ls : List Text} (hls : ls ⊆ Perl.lines t)
    (s : State) {sums : Sums} (hsums : Columned sums ∧ ∀ file ∈ sums, isCell file = true) :
    Columned (ls.foldl (enterLine s) sums) ∧
      ∀ file ∈ ls.foldl (enterLine s) sums, isCell file = true := by
  induction ls generalizing sums with
  | nil => exact hsums
  | cons line ls ih =>
      obtain ⟨hname, hrow⟩ := isCell_readRow (hls List.mem_cons_self)
      refine ih (fun l hl => hls (List.mem_cons_of_mem _ hl)) ?_
      unfold enterLine
      split
      · refine ⟨columned_insert hsums.1 _ hrow, fun file hfile => ?_⟩
        rcases (AList.mem_insert _).mp hfile with rfl | hfile
        · exact hname
        · exact hsums.2 file hfile
      · exact hsums

section

variable (g : Globals) (s : State)

theorem overwrite_exists (file content : Text) (other : Text) :
    (overwrite g file content s).exists other = (s.exists other || decide (other = file)) := by
  by_cases heq : other = file
  · subst heq
    cases hfile : s.files other <;> simp [overwrite, hfile, State.exists]
  · cases hfile : s.files file <;> simp [overwrite, hfile, State.exists, heq]

theorem overwrite_content (file content : Text) :
    ((overwrite g file content s).files file).map Node.content = some content := by
  cases hfile : s.files file <;> simp [overwrite, hfile, Globals.newNode]

theorem overwrite_sums (file content : Text) : (overwrite g file content s).sums = s.sums := by
  cases hfile : s.files file <;> simp [overwrite, hfile]

/-- The rows that are written: those of the files that there are when `sum.csv` has been opened. -/
def writtenRows : List ((_ : Text) × Sum) :=
  (sortedRows s.sums).filter fun row => s.exists row.1 || decide (row.1 = g.sumCsv)

variable {s}

/-- Writing a hash that is not empty. -/
theorem writeSums_spec (h : s.sums.entries ≠ []) :
    (∀ file, (writeSums g true s).exists file = (s.exists file || decide (file = g.sumCsv))) ∧
      ((writeSums g true s).files g.sumCsv).map Node.content =
        some ((writtenRows g s).flatMap sumLine) ∧
      (writeSums g true s).sums = s.sums := by
  have hwrite : writeSums g true s = overwrite g g.sumCsv ((writtenRows g s).flatMap sumLine)
      (overwrite g g.sumCsv [] s) := by
    simp only [writeSums, writtenRows, List.isEmpty_eq_false_iff.mpr h, overwrite_exists,
      overwrite_sums]
    rfl
  rw [hwrite]
  refine ⟨fun file => ?_, overwrite_content g _ _ _, by rw [overwrite_sums, overwrite_sums]⟩
  rw [overwrite_exists, overwrite_exists, Bool.or_assoc, Bool.or_self]

end

theorem readSums_files (g : Globals) (opens : Bool) (s : State) :
    (readSums g opens s).files = s.files := by
  unfold readSums
  repeat' split
  all_goals rfl

theorem mem_writtenRows {g : Globals} {s : State} {file : Text} {sum : Sum} :
    (⟨file, sum⟩ : (_ : Text) × Sum) ∈ writtenRows g s ↔
      sum ∈ s.sums.lookup file ∧ (s.exists file || decide (file = g.sumCsv)) = true := by
  rw [writtenRows, List.mem_filter, sortedRows, List.mem_mergeSort, AList.mem_lookup_iff]

theorem nodupKeys_writtenRows (g : Globals) (s : State) : (writtenRows g s).NodupKeys := by
  have hsorted : (sortedRows s.sums).NodupKeys :=
    (List.perm_nodupKeys (List.mergeSort_perm _ _)).mpr s.sums.nodupKeys
  exact List.NodupKeys.sublist List.filter_sublist hsorted

/-- Rows are read as they were written, for the files that there are. -/
theorem foldl_enterLine_rows {rows : List ((_ : Text) × Sum)} (hrows : ∀ row ∈ rows,
      isCell row.1 = true ∧ isCell row.2.filesize = true ∧ isCell row.2.sum = true)
    (t : State) (sums : Sums) :
    (Perl.lines (rows.flatMap sumLine)).foldl (enterLine t) sums =
      (rows.filter fun row => t.exists row.1).foldl
        (fun sums row => sums.insert row.1 row.2) sums := by
  rw [lines_flatMap_sumLine hrows, List.foldl_map, List.foldl_filter]
  refine List.foldl_ext _ _ _ fun sums row hmem => ?_
  obtain ⟨hname, hfilesize, hsum⟩ := hrows row hmem
  rw [enterLine, readRow_sumLine hname hfilesize hsum]

/-- The hash comes back: a later run that finds `sum.csv` as it is here reads the row of every file
that was there when the hash was written and is there when it is read, and no others. -/
def Survives (g : Globals) (s : State) : Prop :=
  ∀ t : State, t.sums = ∅ → t.files g.sumCsv = s.files g.sumCsv → ∀ file,
    (readSums g true t).sums.lookup file =
      if s.exists file && t.exists file then s.sums.lookup file else none

/-- The hash that has just been written comes back exactly if no name of a file that there is
contains a comma or a newline. -/
theorem survives_writeSums_iff (g : Globals) {s : State} (hcolumned : Columned s.sums)
    (hne : s.sums.entries ≠ []) :
    Survives g (writeSums g true s) ↔
      ∀ file ∈ s.sums, (writeSums g true s).exists file = true → isCell file = true := by
  obtain ⟨hexists, hcontent, hsums⟩ := writeSums_spec g hne
  obtain ⟨node, hnode, hcontent⟩ := Option.map_eq_some_iff.mp hcontent
  have hread : ∀ t : State, t.sums = ∅ → t.files g.sumCsv = (writeSums g true s).files g.sumCsv →
      (readSums g true t).sums = (Perl.lines node.content).foldl (enterLine t) ∅ := by
    intro t hempty hsame
    rw [hnode] at hsame
    simp only [readSums, hsame, if_true, hempty]
  constructor
  · intro h file hfile hthere
    let t : State := ⟨(writeSums g true s).files, ∅⟩
    have hlookup := h t rfl rfl file
    have hagain : t.exists file = true := hthere
    rw [hread t rfl rfl, hthere, hagain, Bool.and_self, if_pos rfl, hsums] at hlookup
    have hmem : file ∈ (Perl.lines node.content).foldl (enterLine t) ∅ := by
      rw [← AList.lookup_isSome, hlookup, AList.lookup_isSome]
      exact hfile
    have hnothing : Columned ∅ ∧ ∀ file ∈ (∅ : Sums), isCell file = true :=
      ⟨fun row hrow => absurd hrow (by simp), by simp⟩
    exact (columned_foldl_enterLine (List.Subset.refl _) _ hnothing).2 file hmem
  · intro h t hempty hsame file
    have hrow : ∀ row ∈ writtenRows g s,
        isCell row.1 = true ∧ isCell row.2.filesize = true ∧ isCell row.2.sum = true := by
      intro row hmem
      obtain ⟨hlookup, hthere⟩ := mem_writtenRows.mp hmem
      rw [← hexists] at hthere
      refine ⟨h row.1 ?_ hthere, hcolumned row (AList.mem_lookup_iff.mp hlookup)⟩
      rw [← AList.lookup_isSome]
      exact Option.isSome_of_mem hlookup
    have hkeys := (nodupKeys_writtenRows g s).sublist
      (List.filter_sublist (p := fun row => t.exists row.1))
    refine Option.ext fun sum => ?_
    have hmem := mem_lookup_foldl_insert hkeys ∅ file sum
    rw [List.mem_filter, mem_writtenRows, ← hexists] at hmem
    rw [hread t hempty hsame, hcontent, foldl_enterLine_rows hrow, hsums]
    cases hthere : (writeSums g true s).exists file with
    | false => simpa [hthere] using hmem
    | true =>
        cases hagain : t.exists file with
        | false => simpa [hthere, hagain] using hmem
        | true => simpa [hthere, hagain] using hmem

/-! ## Runs -/

section

variable (g : Globals) (s : State)

theorem openPlus_sums (calls : OpenCalls) (file : Text) :
    (openPlus g calls file s).2.sums = s.sums := by
  unfold openPlus
  repeat' split
  all_goals rfl

theorem printTo_sums (opened : Opened) (file content : Text) :
    (printTo g opened file content s).sums = s.sums := by
  unfold printTo
  split
  · exact overwrite_sums g s _ _
  · rfl

theorem rename_sums (renames : Bool) (source target : Text) :
    (rename renames source target s).2.sums = s.sums := by
  unfold rename
  repeat' split
  all_goals rfl

theorem revertLog_sums (calls : LogCalls) (command : Text) :
    (revertLog g calls command s).sums = s.sums := by
  have hcreate : (createScript g s).sums = s.sums := by
    unfold createScript
    split
    · rfl
    · rfl
  unfold revertLog
  dsimp only
  split
  · rw [write_sums, rename_sums, printTo_sums, openPlus_sums, hcreate]
  · rw [rename_sums, printTo_sums, openPlus_sums, hcreate]

theorem backupFile_sums (calls : BackupCalls) (file : Text) :
    (backupFile g calls file s).2.sums = s.sums := by
  unfold backupFile
  dsimp only
  split
  · rw [revertLog_sums, write_sums]
  · rfl

end

theorem retain_sums (calls : CloseCalls) (file : Text) (s : State) :
    (retain calls file s).sums = s.sums := by
  unfold retain
  split
  · rfl
  · rfl

theorem writeSums_sums (g : Globals) (opens : Bool) (s : State) :
    (writeSums g opens s).sums = s.sums := by
  unfold writeSums
  split
  · rfl
  · rw [overwrite_sums, overwrite_sums]

/-- The state in which `B_set_sum` writes the hash. -/
def entered (printed : Nat × Nat) (file : Text) (s : State) : State :=
  { s with sums := s.sums.insert file ⟨decimal printed.1, decimal printed.2⟩ }

theorem setSum_eq_writeSums {g : Globals} {s : State} {file : Text} {calls : SumCalls}
    (hopens : calls.opens = true) {printed : Nat × Nat} (hcksum : calls.cksum = some printed)
    (hfile : s.exists file = true) :
    setSum g calls file s = writeSums g true (entered printed file s) := by
  simp only [setSum, hfile, if_true, hcksum, hopens, entered]

theorem entered_ne_nil (printed : Nat × Nat) (file : Text) (s : State) :
    (entered printed file s).sums.entries ≠ [] := by
  rw [entered, AList.entries_insert]
  exact List.cons_ne_nil _ _

theorem entered_columned {s : State} (h : Columned s.sums) (printed : Nat × Nat) (file : Text) :
    Columned (entered printed file s).sums :=
  columned_insert h file ⟨isCell_decimal printed.1, isCell_decimal printed.2⟩

section

variable {g : Globals} {s : State} (h : Columned s.sums)

include h

/-- What a call enters in the hash fits in columns. -/
theorem setSum_columned (calls : SumCalls) (file : Text) :
    Columned (setSum g calls file s).sums := by
  unfold setSum
  split
  · cases calls.cksum with
    | none => exact h
    | some printed =>
        show Columned (writeSums g calls.opens (entered printed file s)).sums
        rw [writeSums_sums]
        exact entered_columned h printed file
  · exact h

theorem closePlus_columned (calls : CloseCalls) (file : Text) :
    Columned (closePlus g calls file s).2.sums := by
  unfold closePlus
  split
  · exact h
  split
  · exact h
  split
  · exact h
  · refine setSum_columned ?_ calls.sum file
    rw [rename_sums, backupFile_sums, retain_sums]
    exact h

theorem edit_columned (calls : OpenCalls × CloseCalls) (file : Text) (change : Text → Text) :
    Columned (edit g calls file change s).2.sums := by
  unfold edit
  dsimp only
  split
  · refine closePlus_columned ?_ calls.2 file
    rw [printTo_sums, openPlus_sums]
    exact h
  · rw [openPlus_sums]
    exact h

theorem deleteFile_columned (calls : DeleteCalls) (file : Text) :
    Columned (deleteFile g calls file s).2.sums := by
  have hbackup : Columned (backupFile g calls.backup file s).2.sums := by
    rw [backupFile_sums]
    exact h
  unfold deleteFile
  split
  · exact h
  split
  next s' heq =>
    rw [heq] at hbackup
    split
    · exact hbackup
    · exact hbackup
  next s' heq =>
    rw [heq] at hbackup
    exact hbackup

theorem createFile_columned (calls : CreateCalls) (file : Text) :
    Columned (createFile g calls file s).2.sums := by
  unfold createFile
  split
  · exact h
  split
  · exact h
  split
  · rw [revertLog_sums]
    exact h
  · exact h

theorem cp_columned (calls : CopyCalls) (source target : Text) :
    Columned (cp g calls source target s).2.sums := by
  have hready : Columned
      (if s.exists target then (backupFile g calls.backup target s).2 else s).sums := by
    split
    · rw [backupFile_sums]
      exact h
    · exact h
  unfold cp
  dsimp only
  refine setSum_columned ?_ calls.sum target
  split
  · rw [revertLog_sums, overwrite_sums]
    exact hready
  · exact hready
  · exact hready

theorem perform_columned (operation : Operation) : Columned (perform g operation s).sums := by
  cases operation with
  | edit calls file change => exact edit_columned h calls file change
  | delete calls file => exact deleteFile_columned h calls file
  | create calls file => exact createFile_columned h calls file
  | cp calls source target => exact cp_columned h calls source target
  | place calls source target => exact cp_columned h calls _ target

end

theorem after_columned {g : Globals} {s : State} (h : Columned s.sums)
    (operations : List Operation) : Columned (after (perform g) s operations).sums := by
  induction operations generalizing s with
  | nil => exact h
  | cons operation operations ih => exact ih (perform_columned h operation)

/-- Over a run, which begins by reading the hash, the sums fit in columns. -/
theorem run_columned (g : Globals) {s : State} (hempty : s.sums = ∅) (opens : Bool)
    (operations : List Operation) :
    Columned (after (perform g) (readSums g opens s) operations).sums := by
  have hnothing : Columned s.sums ∧ ∀ file ∈ s.sums, isCell file = true := by
    rw [hempty]
    exact ⟨fun row hrow => absurd hrow (by simp), by simp⟩
  refine after_columned ?_ operations
  unfold readSums
  split
  · split
    · exact (columned_foldl_enterLine (List.Subset.refl _) s hnothing).1
    · exact hnothing.1
  · exact hnothing.1

/-- Bastille has read the hash, has worked on files and enters one more file in the hash. A later
run of Bastille reads the hash back for the files that there are, exactly if none of their names
contains a comma or a newline. -/
theorem sums_survive_iff (g : Globals) {s : State} (hempty : s.sums = ∅) (opens : Bool)
    (operations : List Operation) {file : Text} {calls : SumCalls} (hopens : calls.opens = true)
    {printed : Nat × Nat} (hcksum : calls.cksum = some printed)
    (hfile : (after (perform g) (readSums g opens s) operations).exists file = true) :
    let s' := setSum g calls file (after (perform g) (readSums g opens s) operations)
    Survives g s' ↔ ∀ other ∈ s'.sums, s'.exists other = true → isCell other = true := by
  intro s'
  have hcolumned := run_columned g hempty opens operations
  have hwritten : s' = writeSums g true
      (entered printed file (after (perform g) (readSums g opens s) operations)) :=
    setSum_eq_writeSums hopens hcksum hfile
  have hsums : s'.sums =
      (entered printed file (after (perform g) (readSums g opens s) operations)).sums := by
    rw [hwritten, writeSums_sums]
  rw [hsums, hwritten]
  exact survives_writeSums_iff g (entered_columned hcolumned printed file)
    (entered_ne_nil printed file _)

/-- Files that all have the same contents. -/
def smallState (files : List Text) : State :=
  ⟨fun file => if files.contains file then some ⟨['x'], 0, 0, 0⟩ else none, ∅⟩

/-- Bastille with short names for its files. -/
def shortGlobals : Globals :=
  ⟨"/b".toList, [], "/r".toList, "/s".toList, [], [], false, 0, 0, 0⟩

/-- The sum of a file is lost where its name contains a comma. -/
theorem sums_lost_comma :
    let s := readSums shortGlobals true (smallState ["/a,c".toList])
    ¬ Survives shortGlobals (setSum shortGlobals ⟨some (1, 23), true⟩ "/a,c".toList
      (after (perform shortGlobals) s [])) := by
  intro s h
  have hcells := (sums_survive_iff shortGlobals (s := smallState ["/a,c".toList]) rfl true [] rfl
    rfl (by decide)).mp h
  exact absurd (hcells "/a,c".toList (AList.lookup_isSome.mp (by decide)) (by decide)) (by decide)

/-- What `B_check_sum` finds in a later run of Bastille about a file whose row was written: the sum
has not changed exactly if `cksum` prints the numbers of the row, provided that no name breaks the
rows. -/
theorem checkSum_next_run (g : Globals) {s : State} (hempty : s.sums = ∅) (opens : Bool)
    (operations : List Operation) {file : Text} {calls : SumCalls} (hopens : calls.opens = true)
    {printed : Nat × Nat} (hcksum : calls.cksum = some printed)
    (hfile : (after (perform g) (readSums g opens s) operations).exists file = true) :
    let s' := setSum g calls file (after (perform g) (readSums g opens s) operations)
    (∀ other ∈ s'.sums, s'.exists other = true → isCell other = true) →
      ∀ t : State, t.sums = ∅ → t.files g.sumCsv = s'.files g.sumCsv →
        ∀ other filesize sum, s'.sums.lookup other = some ⟨decimal filesize, decimal sum⟩ →
          s'.exists other = true → t.exists other = true → ∀ calls' : SumCalls,
            ((checkSum g calls' other (readSums g true t)).1 = true ↔
              calls'.cksum = some (filesize, sum)) := by
  intro s' hcells t hempty' hsame other filesize sum hrow hwritten hthere calls'
  have hsurvives := (sums_survive_iff g hempty opens operations hopens hcksum hfile).mpr hcells
  have hlookup := hsurvives t hempty' hsame other
  rw [show s'.exists other = true from hwritten, hthere, Bool.and_self, if_pos rfl,
    show s'.sums.lookup other = _ from hrow] at hlookup
  -- the hash is not empty, so that it is not read again
  have hloaded : loadSums g calls'.opens (readSums g true t) = readSums g true t := by
    have hne : (readSums g true t).sums.entries ≠ [] := by
      intro hnil
      have hmem := AList.mem_lookup_iff.mp hlookup
      rw [hnil] at hmem
      exact absurd hmem List.not_mem_nil
    rw [loadSums, List.isEmpty_eq_false_iff.mpr hne, if_neg Bool.false_ne_true]
  have hexists : (readSums g true t).exists other = true := by
    rw [State.exists, readSums_files]
    exact hthere
  simp only [checkSum, hloaded, hexists, Bool.true_and, hlookup, Option.any_some,
    Perl.number_decimal]
  cases calls'.cksum with
  | none => simp
  | some printed' =>
      show (decide (filesize = printed'.1) && decide (sum = printed'.2)) = true ↔ _
      rw [Bool.and_eq_true, decide_eq_true_iff, decide_eq_true_iff, Option.some.injEq,
        Prod.ext_iff]
      exact ⟨fun h => ⟨h.1.symm, h.2.symm⟩, fun h => ⟨h.1.symm, h.2.symm⟩⟩

/-- A file whose sum was read from `sum.csv` and that has been edited since is noticed. -/
theorem checkSum_next_run_edited :
    let first := setSum shortGlobals ⟨some (1, 23), true⟩ "/a".toList
      (smallState ["/a".toList, "/c".toList])
    let s' := setSum shortGlobals ⟨some (4, 5), true⟩ "/c".toList
      (after (perform shortGlobals) (readSums shortGlobals true { first with sums := ∅ }) [])
    ¬ (checkSum shortGlobals ⟨some (1, 24), true⟩ "/a".toList
      (readSums shortGlobals true { s' with sums := ∅ })).1 = true := by
  intro first s' h
  have hcells : ∀ other ∈ s'.sums, s'.exists other = true → isCell other = true := by
    intro other hmem _
    have hkeys : ∀ name ∈ s'.sums.keys, isCell name = true := by decide +kernel
    exact hkeys other hmem
  have hsame := (checkSum_next_run shortGlobals (s := { first with sums := ∅ }) rfl true [] rfl rfl
    (by decide +kernel) hcells { s' with sums := ∅ } rfl rfl "/a".toList 1 23 (by decide +kernel)
    (by decide +kernel) (by decide +kernel) ⟨some (1, 24), true⟩).mp h
  exact absurd hsame (by decide)

end MetaSecurity.Bastille
