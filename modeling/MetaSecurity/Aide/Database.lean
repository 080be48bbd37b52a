import MetaSecurity.Aide.Rules
import MetaSecurity.Library.Shell.Errexit
import MetaSecurity.Library.Shell.Variables
import Mathlib.Logic.Function.Basic

/-!
# The database that is made with an image

`aide_init_db` of `aide-db-init.bbclass`, which runs once for every image and under `sh -e`. All
images share `STAGING_AIDE_DIR`, with the staged `aide.conf` and the two forms of the database. A
step that fails leaves these two in any state; the appends to `aide.conf` do not fail.
-/

namespace MetaSecurity.Aide

open Library Shell

/-! ## The strip -/

/-- The text starts with a match of the pattern, in which a dot stands for any character. -/
def likes : Text → Text → Bool
  | [], _ => true
  | c :: pattern, d :: t => (c = '.' || c = d) && likes pattern t
  | _ :: _, [] => false

/-- `sed 's:pattern::'` on one line, for a pattern whose only special character is the dot. -/
def deleteFirst (pattern : Text) : Text → Text
  | [] => []
  | c :: t =>
      if likes pattern (c :: t) then (c :: t).drop pattern.length
      else c :: deleteFirst pattern t

/-- A pattern matches itself. -/
theorem likes_append (pattern t : Text) : likes pattern (pattern ++ t) = true := by
  induction pattern with
  | nil => rfl
  | cons c pattern ih => simp [likes, ih]

/-- The strip takes away what was put before. -/
theorem deleteFirst_append (pattern t : Text) : deleteFirst pattern (pattern ++ t) = t := by
  cases hjoined : pattern ++ t with
  | nil => simp [deleteFirst, (List.append_eq_nil_iff.mp hjoined).2]
  | cons c rest =>
      rw [deleteFirst, ← hjoined, if_pos (likes_append pattern t), List.drop_left]

/-! ## The builds -/

/-- An image build as `aide_init_db` finds it: the directory of its root file system, the two
lists, and the files that exist on the build host, in the form in which AIDE writes names. -/
structure Build where
  imageRootfs : Text
  lists : Lists
  hostFiles : List Text
  plain : imageRootfs.all isPathChar = true
  distinct : hostFiles.Nodup
  encoded : ∀ file ∈ hostFiles, ' ' ∉ file

/-- The path on the target of a file below the directory. -/
def below (directory file : Text) : Option Text :=
  if directory.isPrefixOf file && (file.drop directory.length).head? = some '/' then
    some (file.drop directory.length)
  else none

/-- The files of the build's own root file system, by their paths on the target. -/
def Build.ownFiles (b : Build) : List Text :=
  b.hostFiles.filterMap (below b.imageRootfs)

/-- The lines that the build appends to the staged `aide.conf`. -/
def Build.nativeRules (b : Build) (echo : Text → Text) : List Text :=
  b.lists.rules echo b.imageRootfs

/-! ## The staging directory -/

/-- `lib/aide.db` and `lib/aide.db.gz`. -/
structure Databases where
  unpacked : Option (List Text)
  packed : Option (List Text)
  deriving Repr, DecidableEq

/-- The shared files, and the databases in the images by the directories of their root file
systems. -/
structure World where
  conf : List Text
  databases : Databases
  installed : Text → Option (List Text)

/-- The steps that can fail. -/
inductive Operation where
  | init
  | gunzip
  | sed
  | gzip
  | copy
  deriving Repr, DecidableEq

/-- Whether a step fails for a reason that is not in the model, and which databases it then
leaves. -/
abbrev Faults := Operation → World → Option Databases

/-- Append a line to the staged `aide.conf`. -/
def append (line : Text) : Command World := fun w =>
  .done { w with conf := w.conf ++ [line] }

/-- A step that may fail. -/
def operate (faults : Faults) (operation : Operation) (effect : Command World) : Command World :=
  fun w =>
    match faults operation w with
    | some left => .stopped { w with databases := left }
    | none => effect w

/-- `aide --init` writes the packed database. -/
def initDatabase (aide : Program) (b : Build) : Command World := fun w =>
  .done { w with
    databases := ⟨w.databases.unpacked, some (aide.init w.conf b.hostFiles)⟩ }

/-- `gunzip lib/aide.db.gz` does not overwrite a file. -/
def gunzip : Command World := fun w =>
  match w.databases with
  | ⟨none, some lines⟩ => .done { w with databases := ⟨some lines, none⟩ }
  | _ => .stopped w

/-- `sed -i -e 's:${IMAGE_ROOTFS}::' lib/aide.db`. -/
def stripNativePath (b : Build) : Command World := fun w =>
  match w.databases.unpacked with
  | some lines => .done { w with
      databases := ⟨some (lines.map (deleteFirst b.imageRootfs)), w.databases.packed⟩ }
  | none => .stopped w

/-- `gzip -9 lib/aide.db`. -/
def gzip : Command World := fun w =>
  match w.databases with
  | ⟨some lines, none⟩ => .done { w with databases := ⟨none, some lines⟩ }
  | _ => .stopped w

/-- `cp -f lib/aide.db.gz ${IMAGE_ROOTFS}${libdir}/aide`. -/
def copyDatabase (b : Build) : Command World := fun w =>
  match w.databases.packed with
  | some lines => .done { w with
      installed := Function.update w.installed b.imageRootfs (some lines) }
  | none => .stopped w

/-- The part of `aide_init_db` that follows the loops. -/
def makeDatabase (aide : Program) (b : Build) (faults : Faults) : Command World :=
  inOrder [
    operate faults .init (initDatabase aide b),
    operate faults .gunzip gunzip,
    operate faults .sed (stripNativePath b),
    operate faults .gzip gzip,
    operate faults .copy (copyDatabase b)]

/-- `aide_init_db`. -/
def aideInitDb (aide : Program) (echo : Text → Text) (b : Build) (faults : Faults) :
    Command World :=
  andThen (inOrder ((b.nativeRules echo).map append)) (makeDatabase aide b faults)

/-! ## What one build does -/

/-- The loops append their lines. -/
theorem append_lines (lines : List Text) (w : World) :
    inOrder (lines.map append) w = .done { w with conf := w.conf ++ lines } := by
  induction lines generalizing w with
  | nil => simp [inOrder]
  | cons line lines ih =>
      refine inOrder_cons_eq_done.mpr ⟨_, rfl, ?_⟩
      rw [ih]
      simp

/-- A step that may fail leaves `aide.conf` alone if the step itself does. -/
theorem keeps_operate {faults : Faults} {operation : Operation} {effect : Command World}
    (h : Keeps World.conf effect) : Keeps World.conf (operate faults operation effect) := by
  intro w
  unfold operate
  cases faults operation w with
  | some left => rfl
  | none => exact h w

/-- Only the loops write to `aide.conf`. -/
theorem keeps_makeDatabase (aide : Program) (b : Build) (faults : Faults) :
    Keeps World.conf (makeDatabase aide b faults) := by
  refine Keeps.inOrder fun command hcommand => ?_
  simp only [List.mem_cons, List.not_mem_nil, or_false] at hcommand
  rcases hcommand with rfl | rfl | rfl | rfl | rfl
  · exact keeps_operate fun w => rfl
  · refine keeps_operate fun w => ?_
    unfold gunzip
    split <;> rfl
  · refine keeps_operate fun w => ?_
    unfold stripNativePath
    split <;> rfl
  · refine keeps_operate fun w => ?_
    unfold gzip
    split <;> rfl
  · refine keeps_operate fun w => ?_
    unfold copyDatabase
    split <;> rfl

/-- However a build ends, its rules stay. -/
theorem conf_aideInitDb (aide : Program) (echo : Text → Text) (b : Build) (faults : Faults)
    (w : World) : (aideInitDb aide echo b faults w).state.conf = w.conf ++ b.nativeRules echo := by
  unfold aideInitDb andThen
  rw [append_lines]
  exact keeps_makeDatabase aide b faults _

/-- Over the builds the rules accumulate. -/
theorem conf_afterRuns (aide : Program) (echo : Text → Text) (runs : List (Build × Faults))
    (w : World) :
    (afterRuns (runs.map fun run => aideInitDb aide echo run.1 run.2) w).conf =
      w.conf ++ runs.flatMap fun run => run.1.nativeRules echo := by
  induction runs generalizing w with
  | nil => simp [afterRuns]
  | cons run runs ih =>
      have hstep := conf_aideInitDb aide echo run.1 run.2 w
      have hrest := ih (aideInitDb aide echo run.1 run.2 w).state
      rw [hstep] at hrest
      rw [List.flatMap_cons, ← List.append_assoc, ← hrest]
      rfl

/-- A step that may fail and succeeds has its effect. -/
theorem operate_eq_done {faults : Faults} {operation : Operation} {effect : Command World}
    {w w' : World} (h : operate faults operation effect w = .done w') : effect w = .done w' := by
  unfold operate at h
  split at h
  · cases h
  · exact h

/-- A build that succeeds installs what AIDE found, without the directory. -/
theorem installed_makeDatabase {aide : Program} {b : Build} {faults : Faults} {w final : World}
    (h : makeDatabase aide b faults w = .done final) :
    final.installed b.imageRootfs =
      some ((aide.init w.conf b.hostFiles).map (deleteFirst b.imageRootfs)) := by
  obtain ⟨w1, h1, h⟩ := inOrder_cons_eq_done.mp h
  obtain ⟨w2, h2, h⟩ := inOrder_cons_eq_done.mp h
  obtain ⟨w3, h3, h⟩ := inOrder_cons_eq_done.mp h
  obtain ⟨w4, h4, h⟩ := inOrder_cons_eq_done.mp h
  obtain ⟨w5, h5, h⟩ := inOrder_cons_eq_done.mp h
  cases operate_eq_done h1
  have hunpacked := operate_eq_done h2
  unfold gunzip at hunpacked
  cases hold : w.databases.unpacked with
  | some lines => simp [hold] at hunpacked
  | none =>
      simp only [hold, Outcome.done.injEq] at hunpacked
      subst hunpacked
      cases operate_eq_done h3
      cases operate_eq_done h4
      cases operate_eq_done h5
      cases h
      exact Function.update_self ..

/-- The database of a build that succeeds, by the rules that were there before. -/
theorem installed_aideInitDb {aide : Program} {echo : Text → Text} {b : Build} {faults : Faults}
    {w final : World} (h : aideInitDb aide echo b faults w = .done final) :
    final.installed b.imageRootfs =
      some ((aide.init (w.conf ++ b.nativeRules echo) b.hostFiles).map
        (deleteFirst b.imageRootfs)) := by
  obtain ⟨appended, happended, hmade⟩ := andThen_eq_done.mp h
  rw [append_lines] at happended
  cases happended
  exact installed_makeDatabase hmade

end MetaSecurity.Aide
