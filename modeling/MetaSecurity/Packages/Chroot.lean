import MetaSecurity.Library.Context
import MetaSecurity.Packages.Groups

/-!
# find-chroot.sh and find-chroot-py.sh

Both scripts go through directories and look for programs that call `chroot` without `chdir`. Where
a program has both, the script for Python looks whether a `chdir` stands in the three lines behind a
`chroot`, and sees none in a file that `grep` takes for binary. The other script means to look at
the two calls behind the call of `chroot`, but it also takes the call of `chroot` itself for an
answer.
-/

namespace MetaSecurity.Packages

open Library Shell

/-- What the commands print about a path: the lines of `readelf -s`, of `objdump -d` and of the file
itself, and what `file` says. -/
structure Contents where
  symbols : List Text
  disassembly : List Text
  lines : List Text
  described : Text
  deriving Repr, DecidableEq

/-- ` os.chdir`. -/
def osChdir : List (Option Char) := word " os" ++ none :: word "chdir"

/-- The machine: `find` has the words that it prints for a directory and a name. Of a file that
`grep` takes for binary it prints the first lines of its output, or none, and then a notice. -/
structure Disk where
  contents : Text → Contents
  isDirectory : Text → Bool
  find : Text → Text → List Text
  binary : Text → Option Nat
  notice : Text
  notice_quiet : grep osChdir notice = false

/-! ## The loops -/

/-- The inner loop of `scan`, with `FOUND`, for the test of a file. -/
def listFiles (listed : Text → Bool) : List Text → Bool → List Found × Bool
  | [], found => ([], found)
  | f :: files, found =>
      if listed f then
        let (rest, found') := listFiles listed files true
        ((if found then [] else [Found.head]) ++ .file f :: rest, found')
      else listFiles listed files found

/-- `scan`. -/
def scanFor (disk : Disk) (listed : Text → Bool) (name : Text) :
    List Text → Bool → List Found × Bool
  | [], found => ([], found)
  | d :: dirs, found =>
      if !disk.isDirectory d then scanFor disk listed name dirs found
      else
        let (printed, found) := listFiles listed (disk.find d name) found
        let (rest, found) := scanFor disk listed name dirs found
        (printed ++ rest, found)

/-- The scripts: the table, and the exit status. In the directories of programs another test comes
first, and those of libraries are searched for a name. -/
def findListed (disk : Disk) (isProgram listed : Text → Bool) (name : Text)
    (arguments : List Text) : List Found × Nat :=
  match arguments with
  | [d] =>
      if disk.isDirectory d then
        let (printed, found) := scanFor disk listed "*".toList [d] false
        (printed, if found then 1 else 0)
      else ([], 1)
  | _ =>
      let (programs, found) :=
        scanFor disk (fun f => isProgram f && listed f) "*".toList progdirs false
      let (libraries, found) := scanFor disk listed name libdirs found
      (programs ++ libraries, if found then 1 else 0)

/-! ## find-chroot.sh -/

/-- `egrep` for a text and for another one behind it, as for ` chroot@.*GLIBC`. -/
def grepBoth (first second : String) (line : Text) : Bool :=
  line.tails.any fun t =>
    first.toList.isPrefixOf t && grep (word second) (t.drop first.toList.length)

/-- `libc.so`. -/
def libcSo : List (Option Char) := word "libc" ++ none :: word "so"

/-- What `objdump -d $f | egrep callq` prints. -/
def Contents.calls (c : Contents) : List Text :=
  c.disassembly.filter (grep (word "callq"))

/-- The tests of a file. The last one is to find a `chdir` behind a `chroot`. -/
def chrootListed (disk : Disk) (f : Text) : Bool :=
  let c := disk.contents f
  if c.symbols.any (grepBoth " chroot@" "GLIBC") then
    if !c.symbols.any (grepBoth " chdir@" "GLIBC") then true
    else if !(grepAfter "--".toList (grep (word "chroot@plt")) 2 .before c.calls).any fun line =>
        grep (word "chroot") line || grep (word "chdir") line then
      !(grep (word "libc-2") f || grep libcSo f)
    else false
  else false

/-- `find-chroot.sh`. -/
def findChroot (disk : Disk) (arguments : List Text) : List Found × Nat :=
  findListed disk (fun _ => true) (chrootListed disk) "*.so".toList arguments

/-! ## find-chroot-py.sh -/

/-- The table for some files, with its head unless that has been printed. -/
def table (found : Bool) (files : List Text) : List Found :=
  (if found || files.isEmpty then [] else [Found.head]) ++ files.map Found.file

theorem table_append (found : Bool) (files files' : List Text) : table found (files ++ files') =
    table found files ++ table (found || !files.isEmpty) files' := by
  cases files with
  | nil => simp [table]
  | cons f files => simp [table]

theorem found_append (found : Bool) (files files' : List Text) :
    (found || !(files ++ files').isEmpty) = (found || !files.isEmpty || !files'.isEmpty) := by
  cases files with
  | nil => simp
  | cons f files => simp

theorem listFiles_eq (listed : Text → Bool) (files : List Text) (found : Bool) :
    listFiles listed files found =
      (table found (files.filter listed), found || !(files.filter listed).isEmpty) := by
  induction files generalizing found with
  | nil => simp [listFiles, table]
  | cons f files ih =>
      unfold listFiles
      cases hlisted : listed f with
      | true =>
          rw [if_pos rfl, ih, List.filter_cons_of_pos hlisted]
          cases found with
          | true => simp [table]
          | false => simp [table]
      | false =>
          rw [if_neg Bool.false_ne_true, ih,
            List.filter_cons_of_neg (Bool.not_eq_true _ ▸ hlisted)]

section

variable (disk : Disk)

/-- The files of the directories that there are. -/
def below (dirs : List Text) (name : Text) : List Text :=
  (dirs.filter disk.isDirectory).flatMap fun d => disk.find d name

theorem scanFor_eq (listed : Text → Bool) (name : Text) (dirs : List Text) (found : Bool) :
    scanFor disk listed name dirs found =
      (table found ((below disk dirs name).filter listed),
        found || !((below disk dirs name).filter listed).isEmpty) := by
  induction dirs generalizing found with
  | nil => simp [scanFor, below, table]
  | cons d dirs ih =>
      unfold scanFor
      cases hdir : disk.isDirectory d with
      | false => simpa [below, hdir] using ih found
      | true =>
          have hbelow : (below disk (d :: dirs) name).filter listed =
              (disk.find d name).filter listed ++ (below disk dirs name).filter listed := by
            simp [below, hdir]
          rw [if_neg (by simp), listFiles_eq]
          dsimp only
          rw [ih, hbelow, table_append, found_append]

/-- The files that a script tests. -/
def tested (isProgram : Text → Bool) (name : Text) (arguments : List Text) : List Text :=
  match arguments with
  | [d] => below disk [d] "*".toList
  | _ => (below disk progdirs "*".toList).filter isProgram ++ below disk libdirs name

/-- The script is not called with something that is no directory. -/
def Disk.Accepts (arguments : List Text) : Prop :=
  ∀ d, arguments = [d] → disk.isDirectory d = true

theorem findListed_eq {arguments : List Text} (h : disk.Accepts arguments)
    (isProgram listed : Text → Bool) (name : Text) :
    let files := (tested disk isProgram name arguments).filter listed
    findListed disk isProgram listed name arguments =
      (table false files, if files.isEmpty then 0 else 1) := by
  have hstatus : ∀ b : Bool, (if !b then (1 : Nat) else 0) = if b then 0 else 1 := by decide
  have hscans :
      let programs := scanFor disk (fun f => isProgram f && listed f) "*".toList progdirs false
      let libraries := scanFor disk listed name libdirs programs.2
      let files := ((below disk progdirs "*".toList).filter isProgram ++
        below disk libdirs name).filter listed
      (programs.1 ++ libraries.1, if libraries.2 then 1 else 0) =
        (table false files, if files.isEmpty then 0 else 1) := by
    intro programs libraries files
    have hfiles : files =
        (below disk progdirs "*".toList).filter (fun f => isProgram f && listed f) ++
          (below disk libdirs name).filter listed := by
      simp only [files, List.filter_append, List.filter_filter, Bool.and_comm]
    have hfound : libraries.2 = !files.isEmpty := by
      have happend := found_append false
        ((below disk progdirs "*".toList).filter fun f => isProgram f && listed f)
        ((below disk libdirs name).filter listed)
      rw [Bool.false_or] at happend
      rw [hfiles, happend]
      simp only [libraries, programs, scanFor_eq]
    rw [hfound, hstatus, hfiles, table_append]
    simp only [libraries, programs, scanFor_eq]
  match arguments with
  | [d] =>
      unfold findListed
      dsimp only
      rw [if_pos (h d rfl), scanFor_eq]
      dsimp only
      rw [Bool.false_or, hstatus]
      rfl
  | [] => exact hscans
  | _ :: _ :: _ => exact hscans

/-- Of the files that it tests a script lists those that fail, behind the head of its table, and its
exit status says whether there is one. -/
theorem findListed_reports {arguments : List Text} (h : disk.Accepts arguments)
    (isProgram listed : Text → Bool) (name : Text) :
    let printed := findListed disk isProgram listed name arguments
    (∀ f, Found.file f ∈ printed.1 ↔
        f ∈ tested disk isProgram name arguments ∧ listed f = true) ∧
      (printed.2 = 1 ↔ ∃ f, Found.file f ∈ printed.1) ∧
      (printed.2 = 1 → printed.1.head? = some .head) := by
  intro printed
  have hprinted : printed = _ := findListed_eq disk h isProgram listed name
  have hmem : ∀ f, Found.file f ∈ printed.1 ↔
      f ∈ (tested disk isProgram name arguments).filter listed := by
    intro f
    rw [hprinted]
    simp only [table, List.mem_append]
    constructor
    · intro hmem
      rcases hmem with hhead | hfile
      · split at hhead <;> simp at hhead
      · obtain ⟨other, hother, heq⟩ := List.mem_map.mp hfile
        exact Found.file.inj heq ▸ hother
    · exact fun hmem => Or.inr (List.mem_map_of_mem hmem)
  refine ⟨fun f => (hmem f).trans List.mem_filter, ?_, ?_⟩
  · simp only [hmem]
    rw [hprinted]
    cases (tested disk isProgram name arguments).filter listed with
    | nil => simp
    | cons f files => exact iff_of_true rfl ⟨f, List.mem_cons_self⟩
  · rw [hprinted]
    cases (tested disk isProgram name arguments).filter listed with
    | nil => exact fun hstatus => absurd hstatus (by decide)
    | cons f files => exact fun _ => rfl

/-! ## The tests -/

theorem matchesAt_of_append {pattern : List (Option Char)} {t : Text}
    (rest : List (Option Char)) (h : matchesAt (pattern ++ rest) t = true) :
    matchesAt pattern t = true := by
  induction pattern generalizing t with
  | nil => rfl
  | cons c pattern ih =>
      cases t with
      | nil => exact h
      | cons d t =>
          obtain ⟨hhead, htail⟩ := Bool.and_eq_true_iff.mp h
          exact Bool.and_eq_true_iff.mpr ⟨hhead, ih htail⟩

/-- A line with a pattern has every beginning of the pattern. -/
theorem grep_of_append {pattern : List (Option Char)} {line : Text} (rest : List (Option Char))
    (h : grep (pattern ++ rest) line = true) : grep pattern line = true := by
  obtain ⟨t, htail, hmatch⟩ := List.any_eq_true.mp h
  exact List.any_eq_true.mpr ⟨t, htail, matchesAt_of_append rest hmatch⟩

/-- The last test of find-chroot.sh finds every call of `chroot`: whatever follows it. -/
theorem near_chroot_iff (calls : List Text) :
    ((grepAfter "--".toList (grep (word "chroot@plt")) 2 .before calls).any fun line =>
        grep (word "chroot") line || grep (word "chdir") line) = true ↔
      ∃ line ∈ calls, grep (word "chroot@plt") line = true := by
  rw [any_grepAfter_iff (by decide) 2 calls]
  constructor
  · intro ⟨i, _, _, _, hi, _⟩
    exact exists_mem_of_any_getElem? hi
  · intro ⟨line, hmem, hline⟩
    obtain ⟨i, hget⟩ := List.getElem?_of_mem hmem
    have hitself : grep (word "chroot") line = true :=
      @grep_of_append (word "chroot") line (word "@plt") hline
    exact ⟨i, i, by omega, by omega, by simp [hget, hline], by simp [hget, hitself]⟩

theorem chrootListed_iff (f : Text) : chrootListed disk f = true ↔
    (∃ line ∈ (disk.contents f).symbols, grepBoth " chroot@" "GLIBC" line = true) ∧
      ((¬ ∃ line ∈ (disk.contents f).symbols, grepBoth " chdir@" "GLIBC" line = true) ∨
        ((¬ ∃ line ∈ (disk.contents f).calls, grep (word "chroot@plt") line = true) ∧
          grep (word "libc-2") f = false ∧ grep libcSo f = false)) := by
  unfold chrootListed
  dsimp only
  rw [← near_chroot_iff, ← List.any_eq_true, ← List.any_eq_true]
  cases (disk.contents f).symbols.any (grepBoth " chroot@" "GLIBC") with
  | false => simp
  | true =>
      cases (disk.contents f).symbols.any (grepBoth " chdir@" "GLIBC") with
      | false => simp
      | true =>
          cases (grepAfter "--".toList (grep (word "chroot@plt")) 2 .before
              (disk.contents f).calls).any fun line =>
                grep (word "chroot") line || grep (word "chdir") line with
          | true => simp
          | false => simp

end

/-! ## The scripts -/

/-- A directory with one file. -/
def oneFileDisk (f : Text) (contents : Contents) : Disk where
  contents := fun _ => contents
  isDirectory := fun d => d = "/d".toList
  find := fun _ _ => [f]
  binary := fun _ => none
  notice := []
  notice_quiet := by decide

theorem oneFileDisk_accepts (f : Text) (contents : Contents) :
    (oneFileDisk f contents).Accepts ["/d".toList] := by
  intro d hd
  rw [← List.singleton_inj.mp hd]
  rfl

/-- find-chroot.sh lists exactly the files that it tests in which there is the symbol `chroot` and
not the symbol `chdir`, or which have both, never call `chroot` through the linkage table and are
not the C library. A call of `chroot` thus passes for one that a `chdir` follows. -/
theorem findChroot_without_chdir (disk : Disk) {arguments : List Text}
    (h : disk.Accepts arguments) :
    let printed := findChroot disk arguments
    (∀ f, Found.file f ∈ printed.1 ↔
      f ∈ tested disk (fun _ => true) "*.so".toList arguments ∧
        (∃ line ∈ (disk.contents f).symbols, grepBoth " chroot@" "GLIBC" line = true) ∧
          ((¬ ∃ line ∈ (disk.contents f).symbols, grepBoth " chdir@" "GLIBC" line = true) ∨
            ((¬ ∃ line ∈ (disk.contents f).calls, grep (word "chroot@plt") line = true) ∧
              grep (word "libc-2") f = false ∧ grep libcSo f = false))) ∧
      (printed.2 = 1 ↔ ∃ f, Found.file f ∈ printed.1) ∧
      (printed.2 = 1 → printed.1.head? = some .head) := by
  intro printed
  obtain ⟨hfiles, hstatus, hhead⟩ := findListed_reports disk h (fun _ => true) (chrootListed disk)
    "*.so".toList
  refine ⟨fun f => ?_, hstatus, hhead⟩
  rw [← chrootListed_iff]
  exact hfiles f

/-- A program that calls `chroot` last and `chdir` nowhere near it is not listed. -/
theorem findChroot_without_chdir_last :
    let disk := oneFileDisk "/d/a".toList
      ⟨[" chroot@GLIBC".toList, " chdir@GLIBC".toList],
        ["callq chdir@plt".toList, "callq a".toList, "callq chroot@plt".toList], [], []⟩
    Found.file "/d/a".toList ∉ (findChroot disk ["/d".toList]).1 := by
  intro disk hlisted
  have hfound := (((findChroot_without_chdir disk (oneFileDisk_accepts _ _)).1 _).mp hlisted).2.2
  rcases hfound with hsymbol | ⟨hcall, -⟩
  · exact hsymbol ⟨_, List.mem_cons_of_mem _ List.mem_cons_self, by decide⟩
  · exact hcall ⟨"callq chroot@plt".toList, by decide, by decide⟩

end MetaSecurity.Packages
