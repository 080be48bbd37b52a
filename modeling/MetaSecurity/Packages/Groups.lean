import MetaSecurity.Packages.Chksec

/-!
# rpm-drop-groups.sh and find-nodrop-groups.sh

Both scripts look for programs that change their group and user without dropping the supplementary
groups. One goes through the files of a package, or of all packages, the other through directories.
`reported_iff` says that they agree.
-/

namespace MetaSecurity.Packages

open Library Shell

/-- What `readelf -s` and `find -perm` say about a path. -/
structure Credentials where
  isFile : Bool
  elf : Bool
  setsGroup : Bool
  setsUser : Bool
  dropsGroups : Bool
  setId : Bool
  deriving Repr, DecidableEq

/-- The machine: `find` has the words that it prints for a directory and a name. -/
structure Machine where
  credentials : Text → Credentials
  rpm : Text → Option (List Text)
  isDirectory : Text → Bool
  find : Text → Text → List Text

/-! ## rpm-drop-groups.sh -/

/-- The CORRECT column. -/
inductive Correct where
  | notApplicable
  | yes
  | no
  deriving Repr, DecidableEq

/-- `CORRECT`. -/
def correct (c : Credentials) : Correct :=
  if c.setsGroup then
    if c.setsUser then
      if c.dropsGroups then .yes
      else if c.setId then .yes
      else .no
    else .yes
  else .notApplicable

/-- The colour of the column in the table for a package. -/
def Correct.color : Correct → Color
  | notApplicable => .yellow
  | yes => .green
  | no => .red

/-- A row of the table for a package. -/
structure GroupRow where
  path : Text
  correct : Cell Correct
  deriving Repr, DecidableEq

/-- The rows that `do_one` prints, and `CORRECT_SUM` after it. -/
def dropFiles (mode : Mode) (machine : Machine) : List Text → Bool → List GroupRow × Bool
  | [], sum => ([], sum)
  | f :: files, sum =>
      let c := machine.credentials f
      if !c.isFile then dropFiles mode machine files sum
      else if !c.elf then dropFiles mode machine files sum
      else
        match mode with
        | .single =>
            let (rows, sum) := dropFiles mode machine files sum
            (⟨f, correct c, (correct c).color⟩ :: rows, sum)
        | .all => dropFiles mode machine files (if correct c = .no then false else sum)

/-- With the names of packages: the rows, and the exit status. A package that is not installed ends
the script. -/
def dropSingle (machine : Machine) : List Text → List GroupRow × Nat
  | [] => ([], 0)
  | package :: packages =>
      match machine.rpm package with
      | none => ([], 1)
      | some files =>
          let (rows, _) := dropFiles .single machine files true
          let (rest, status) := dropSingle machine packages
          (rows ++ rest, status)

/-- With `--all`: whether the row of each package says yes, as that of one that is not installed
does. -/
def dropAll (machine : Machine) (packages : List Text) : List (Text × Cell Bool) :=
  packages.map fun package =>
    let sum := (machine.rpm package).all fun files => (dropFiles .all machine files true).2
    (package, ⟨sum, if sum then .green else .red⟩)

/-! ## find-nodrop-groups.sh -/

/-- A line of the output: the head of the table, or a file. -/
inductive Found where
  | head
  | file (path : Text)
  deriving Repr, DecidableEq

/-- The inner loop of `scan`, with `FOUND`. -/
def scanFiles (machine : Machine) : List Text → Bool → List Found × Bool
  | [], found => ([], found)
  | f :: files, found =>
      let c := machine.credentials f
      if c.setsGroup && c.setsUser && !c.dropsGroups then
        let head := if found then [] else [Found.head]
        if c.setId then
          let (rest, found) := scanFiles machine files found
          (head ++ rest, found)
        else
          let (rest, found) := scanFiles machine files true
          (head ++ .file f :: rest, found)
      else scanFiles machine files found

/-- `scan`. -/
def scan (machine : Machine) (name : Text) : List Text → Bool → List Found × Bool
  | [], found => ([], found)
  | d :: dirs, found =>
      if !machine.isDirectory d then scan machine name dirs found
      else
        let (printed, found) := scanFiles machine (machine.find d name) found
        let (rest, found) := scan machine name dirs found
        (printed ++ rest, found)

def libdirs : List Text :=
  ["/lib".toList, "/lib64".toList, "/usr/lib".toList, "/usr/lib64".toList]

def progdirs : List Text :=
  ["/bin".toList, "/sbin".toList, "/usr/bin".toList, "/usr/sbin".toList, "/usr/libexec".toList]

/-- The script: the table, and the exit status. -/
def findNodropGroups (machine : Machine) (arguments : List Text) : List Found × Nat :=
  match arguments with
  | [d] =>
      if machine.isDirectory d then
        let (printed, found) := scan machine "*".toList [d] false
        (printed, if found then 1 else 0)
      else ([], 1)
  | _ =>
      let (libraries, found) := scan machine "*.so".toList libdirs false
      let (programs, found) := scan machine "*".toList progdirs found
      (libraries ++ programs, if found then 1 else 0)

/-! ## The two loops -/

/-- The file on a line. -/
def Found.file? : Found → Option Text
  | .file path => some path
  | .head => none

/-- The groups are not dropped by a program that is not set-id. -/
def Credentials.undropped (c : Credentials) : Bool := correct c = .no

theorem undropped_iff (c : Credentials) : c.undropped = true ↔
    c.setsGroup = true ∧ c.setsUser = true ∧ c.dropsGroups = false ∧ c.setId = false := by
  obtain ⟨isFile, elf, setsGroup, setsUser, dropsGroups, setId⟩ := c
  cases setsGroup <;> cases setsUser <;> cases dropsGroups <;> cases setId <;>
    simp [Credentials.undropped, correct]

section

variable {machine : Machine}

/-- The files that are listed, whether any is, and the head of the table before them. -/
structure Lists (machine : Machine) (examined : List Text) (already : Bool)
    (printed : List Found × Bool) : Prop where
  files : printed.1.filterMap Found.file? =
    examined.filter fun f => (machine.credentials f).undropped
  found : printed.2 = (already || examined.any fun f => (machine.credentials f).undropped)
  head : already = false → printed.1 ≠ [] → printed.1.head? = some .head

theorem scanFiles_lists (files : List Text) (found : Bool) :
    Lists machine files found (scanFiles machine files found) := by
  induction files generalizing found with
  | nil => exact ⟨rfl, by simp [scanFiles], fun _ h => absurd rfl h⟩
  | cons f files ih =>
      unfold scanFiles
      dsimp only
      split
      next hcandidate =>
        simp only [Bool.and_eq_true, Bool.not_eq_eq_eq_not, Bool.not_true] at hcandidate
        split
        next hset =>
          have hkept : (machine.credentials f).undropped = false :=
            Bool.eq_false_iff.mpr fun h => by simp [((undropped_iff _).mp h).2.2.2] at hset
          obtain ⟨hfiles, hfound, -⟩ := ih found
          refine ⟨?_, ?_, fun hnone _ => by simp [hnone]⟩
          · rw [List.filter_cons_of_neg (by simp [hkept]), ← hfiles, List.filterMap_append]
            cases found with
            | true => rfl
            | false => rfl
          · rw [List.any_cons, hkept, Bool.false_or]
            exact hfound
        next hset =>
          have hbad : (machine.credentials f).undropped = true :=
            (undropped_iff _).mpr
              ⟨hcandidate.1.1, hcandidate.1.2, hcandidate.2, by simpa using hset⟩
          obtain ⟨hfiles, hfound, -⟩ := ih true
          refine ⟨?_, ?_, fun hnone _ => by simp [hnone]⟩
          · rw [List.filter_cons_of_pos (p := fun f => (machine.credentials f).undropped) hbad,
              ← hfiles, List.filterMap_append]
            cases found with
            | true => rfl
            | false => rfl
          · rw [List.any_cons, hbad, Bool.true_or, Bool.or_true]
            exact hfound
      next hcandidate =>
        have hkept : (machine.credentials f).undropped = false :=
          Bool.eq_false_iff.mpr fun h => by
            obtain ⟨hgroup, huser, hdrops, -⟩ := (undropped_iff _).mp h
            simp [hgroup, huser, hdrops] at hcandidate
        obtain ⟨hfiles, hfound, hhead⟩ := ih found
        refine ⟨?_, ?_, hhead⟩
        · rw [List.filter_cons_of_neg (by simp [hkept])]
          exact hfiles
        · rw [List.any_cons, hkept, Bool.false_or]
          exact hfound

/-- One part of the output after another. -/
theorem Lists.append {examined examined' : List Text} {found : Bool}
    {printed printed' : List Found × Bool} (h : Lists machine examined found printed)
    (h' : Lists machine examined' printed.2 printed') :
    Lists machine (examined ++ examined') found (printed.1 ++ printed'.1, printed'.2) := by
  refine ⟨?_, ?_, fun hnone hne => ?_⟩
  · rw [List.filterMap_append, h.files, h'.files, List.filter_append]
  · show printed'.2 = _
    rw [h'.found, h.found, List.any_append, Bool.or_assoc]
  · cases hprinted : printed.1 with
    | nil =>
        -- nothing was listed so far, so nothing was found
        have hnothing : examined.filter (fun f => (machine.credentials f).undropped) = [] := by
          rw [← h.files, hprinted]
          rfl
        have hnot : printed.2 = false := by
          rw [h.found, hnone, Bool.false_or, List.any_eq_false]
          exact List.filter_eq_nil_iff.mp hnothing
        rw [hprinted] at hne
        exact h'.head hnot hne
    | cons first rest =>
        have hhead := h.head hnone (by simp [hprinted])
        rw [hprinted] at hhead
        exact hhead

theorem scan_lists (machine : Machine) (name : Text) (dirs : List Text) (found : Bool) :
    Lists machine ((dirs.filter machine.isDirectory).flatMap fun d => machine.find d name) found
      (scan machine name dirs found) := by
  induction dirs generalizing found with
  | nil => exact ⟨rfl, by simp [scan], fun _ h => absurd rfl h⟩
  | cons d dirs ih =>
      unfold scan
      split
      next hdir =>
        rw [List.filter_cons_of_neg (by simpa using hdir)]
        exact ih found
      next hdir =>
        rw [List.filter_cons_of_pos (by simpa using hdir), List.flatMap_cons]
        exact (scanFiles_lists (machine.find d name) found).append (ih _)

/-- The rows of a package are those of its programs. -/
theorem dropFiles_single (files : List Text) (sum : Bool) :
    dropFiles .single machine files sum =
      ((files.filter fun f => (machine.credentials f).isFile && (machine.credentials f).elf).map
        fun f => ⟨f, correct (machine.credentials f), (correct (machine.credentials f)).color⟩,
        sum) := by
  induction files with
  | nil => rfl
  | cons f files ih =>
      unfold dropFiles
      dsimp only
      rw [ih]
      cases hfile : (machine.credentials f).isFile with
      | false => simp [hfile]
      | true =>
          cases helf : (machine.credentials f).elf with
          | false => simp [hfile, helf]
          | true => simp [hfile, helf]

/-- With `--all` one program is enough for a no. -/
theorem dropFiles_all (files : List Text) (sum : Bool) :
    (dropFiles .all machine files sum).2 = (sum &&
      !(files.filter fun f => (machine.credentials f).isFile && (machine.credentials f).elf).any
        fun f => (machine.credentials f).undropped) := by
  induction files generalizing sum with
  | nil => simp [dropFiles]
  | cons f files ih =>
      unfold dropFiles
      dsimp only
      cases hfile : (machine.credentials f).isFile with
      | false => simp [hfile, ih]
      | true =>
          cases helf : (machine.credentials f).elf with
          | false => simp [hfile, helf, ih]
          | true =>
              cases hbad : (machine.credentials f).undropped with
              | false =>
                  have hcorrect : correct (machine.credentials f) ≠ .no := of_decide_eq_false hbad
                  simp [hfile, helf, ih, hbad, hcorrect]
              | true =>
                  have hcorrect : correct (machine.credentials f) = .no := of_decide_eq_true hbad
                  simp [hfile, helf, ih, hbad, hcorrect]

/-- The files that find-nodrop-groups.sh looks at. -/
def examined (machine : Machine) (arguments : List Text) : List Text :=
  let below := fun dirs name =>
    (dirs.filter machine.isDirectory).flatMap fun d => machine.find d name
  match arguments with
  | [d] => below [d] "*".toList
  | _ => below libdirs "*.so".toList ++ below progdirs "*".toList

/-- The script is not called with something that is no directory. -/
def ValidArguments (machine : Machine) (arguments : List Text) : Prop :=
  ∀ d, arguments = [d] → machine.isDirectory d = true

theorem findNodropGroups_lists {arguments : List Text} (h : ValidArguments machine arguments) :
    ∃ found, Lists machine (examined machine arguments) false
        ((findNodropGroups machine arguments).1, found) ∧
      (findNodropGroups machine arguments).2 = if found then 1 else 0 := by
  have hboth := (scan_lists machine "*.so".toList libdirs false).append
    (scan_lists machine "*".toList progdirs (scan machine "*.so".toList libdirs false).2)
  match arguments with
  | [d] =>
      have hone := scan_lists machine "*".toList [d] false
      refine ⟨(scan machine "*".toList [d] false).2, ?_, ?_⟩
      · simpa [findNodropGroups, examined, h d rfl] using hone
      · simp [findNodropGroups, h d rfl]
  | [] => exact ⟨_, hboth, rfl⟩
  | _ :: _ :: _ => exact ⟨_, hboth, rfl⟩

/-- A file is listed if it is looked at and does not drop its groups. -/
theorem mem_listed {examined : List Text} {already found : Bool} {printed : List Found}
    (h : Lists machine examined already (printed, found)) {f : Text} :
    Found.file f ∈ printed ↔ f ∈ examined ∧ (machine.credentials f).undropped = true := by
  have hfilter : f ∈ examined.filter (fun f => (machine.credentials f).undropped) ↔ _ :=
    List.mem_filter
  rw [← hfilter, ← h.files, List.mem_filterMap]
  constructor
  · intro hmem
    exact ⟨_, hmem, rfl⟩
  · intro hmem
    obtain ⟨line, hline, hfile⟩ := hmem
    cases line with
    | head => cases hfile
    | file path => exact Option.some.inj hfile ▸ hline

end

/-- The two scripts agree on every program of a package that is among the files looked at: it has a
red row exactly if it is listed. The package has one in the table of all packages exactly if one of
its programs does. find-nodrop-groups.sh ends with status 1 exactly if it lists a file, and then its
table starts with a head. -/
theorem reported_iff {machine : Machine} {arguments : List Text}
    (hvalid : ValidArguments machine arguments) {package : Text} {files : List Text}
    (hinstalled : machine.rpm package = some files) :
    let found := findNodropGroups machine arguments
    let rows := (dropSingle machine [package]).1
    (∀ row ∈ rows, row.path ∈ examined machine arguments →
        (row.correct.color = .red ↔ Found.file row.path ∈ found.1)) ∧
      (∀ packages sum, (package, sum) ∈ dropAll machine packages →
        (sum.color = .red ↔ ∃ row ∈ rows, row.correct.color = .red)) ∧
      (found.2 = 1 ↔ ∃ f, Found.file f ∈ found.1) ∧
      (found.2 = 1 → found.1.head? = some .head) := by
  intro found rows
  obtain ⟨any, hlists, hstatus⟩ := findNodropGroups_lists hvalid
  have hrows : rows = (files.filter fun f =>
      (machine.credentials f).isFile && (machine.credentials f).elf).map fun f =>
        ⟨f, correct (machine.credentials f), (correct (machine.credentials f)).color⟩ := by
    simp [rows, dropSingle, hinstalled, dropFiles_single]
  have hred : ∀ f, (correct (machine.credentials f)).color = .red ↔
      (machine.credentials f).undropped = true := by
    intro f
    unfold Credentials.undropped
    cases correct (machine.credentials f) <;> simp [Correct.color]
  have hany : any = true ↔ ∃ f, Found.file f ∈ found.1 := by
    have hfound : any = (false || (examined machine arguments).any fun f =>
        (machine.credentials f).undropped) := hlists.found
    rw [hfound, Bool.false_or, List.any_eq_true]
    exact exists_congr fun f => (mem_listed hlists).symm
  have hone : found.2 = 1 ↔ any = true := by
    rw [show found.2 = _ from hstatus]
    cases any <;> simp
  refine ⟨fun row hrow hexamined => ?_, fun packages sum hsum => ?_, hone.trans hany, fun h => ?_⟩
  · rw [hrows] at hrow
    obtain ⟨f, hf, rfl⟩ := List.mem_map.mp hrow
    refine (hred f).trans ?_
    rw [mem_listed hlists]
    exact (and_iff_right hexamined).symm
  · obtain ⟨other, -, heq⟩ := List.mem_map.mp hsum
    obtain ⟨rfl, rfl⟩ := Prod.mk.inj heq
    simp only [hinstalled, Option.all_some, dropFiles_all, Bool.true_and]
    rw [hrows]
    simp [hred, and_assoc]
  · obtain ⟨f, hf⟩ := hany.mp (hone.mp h)
    exact hlists.head rfl (List.ne_nil_of_mem hf)

/-- A program that keeps its groups, after one that is set-id. The package has another program
elsewhere. -/
def twoPrograms : Machine where
  credentials f := ⟨true, true, true, true, false, f = "/bin/a".toList⟩
  rpm package := if package = "p".toList then some ["/bin/b".toList, "/opt/c".toList] else none
  isDirectory d := d = "/bin".toList
  find _ _ := ["/bin/a".toList, "/bin/b".toList]

/-- The head of the table is printed for both programs, and the second one is listed. -/
theorem reported_iff_two :
    (findNodropGroups twoPrograms ["/bin".toList]).1 =
        [.head, .head, .file "/bin/b".toList] ∧
      ∀ row ∈ (dropSingle twoPrograms ["p".toList]).1, row.path = "/bin/b".toList →
        row.correct.color = .red := by
  have hfound : (findNodropGroups twoPrograms ["/bin".toList]).1 =
      [.head, .head, .file "/bin/b".toList] := by decide
  have hvalid : ValidArguments twoPrograms ["/bin".toList] := by
    intro d h
    rw [← (List.cons.inj h).1]
    decide
  obtain ⟨hred, -⟩ := reported_iff hvalid (show twoPrograms.rpm "p".toList =
    some ["/bin/b".toList, "/opt/c".toList] from rfl)
  refine ⟨hfound, fun row hrow hpath => (hred row hrow ?_).mpr ?_⟩
  · rw [hpath]
    decide
  · rw [hpath, hfound]
    decide

end MetaSecurity.Packages
