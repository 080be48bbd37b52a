import MetaSecurity.Bastille.Files
import MetaSecurity.Library.Journal

/-!
# The script `revert-actions` as a journal

To a file that Bastille works on belong the file itself, its copy in the backup directory and the
commands about it in `revert-actions`: together they are a place of a journal. Running the script
undoes the journal of every file, and `B_revert_log` adds an entry to that of one file.
-/

namespace MetaSecurity.Bastille

open Library Shell Traces

/-! ## Files of Bastille and files of the system -/

/-- An absolute path of characters that a shell leaves alone. -/
def isPlainPath (file : Text) : Bool :=
  file.head? = some '/' && file.all isPathChar

/-- What the configuration has to provide: the script and the sums lie outside the backup directory,
are different files, and are not named as swap files are. -/
structure Globals.Separate (g : Globals) : Prop where
  mv : isPlainPath g.mv = true
  rm : isPlainPath g.rm = true
  backup : isPlainPath g.backup = true
  log_ne_nil : g.revertActions ≠ []
  log_outside : ¬ g.backup <+: swap g.revertActions
  log_not_swap : ¬ ".bastille".toList <:+ g.revertActions
  sums_outside : ¬ g.backup <+: g.sumCsv
  sums_ne_log : g.sumCsv ≠ g.revertActions
  sums_not_swap : ¬ ".bastille".toList <:+ g.sumCsv

/-- A file of the system, which is none of those that Bastille keeps for itself. -/
structure Foreign (g : Globals) (file : Text) : Prop where
  plain : isPlainPath file = true
  outside : ¬ g.backup <+: swap file
  not_swap : ¬ ".bastille".toList <:+ file
  ne_log : file ≠ g.revertActions
  ne_sums : file ≠ g.sumCsv

variable {g : Globals}

theorem Foreign.ne_nil {file : Text} (h : Foreign g file) : file ≠ [] := by
  rintro rfl
  exact absurd h.plain (by decide)

theorem Foreign.ne_swap {file : Text} (h : Foreign g file) (other : Text) : file ≠ swap other := by
  rintro rfl
  exact h.not_swap (List.suffix_append _ _)

theorem Foreign.ne_backupOf {file : Text} (h : Foreign g file) (other : Text) :
    file ≠ g.backupOf other := by
  rintro rfl
  exact h.outside ((List.prefix_append g.backup other).trans (List.prefix_append _ _))

theorem Foreign.swap_ne_backupOf {file : Text} (h : Foreign g file) (other : Text) :
    swap file ≠ g.backupOf other := by
  intro heq
  exact h.outside (heq ▸ List.prefix_append _ _)

section

variable (hg : g.Separate)

include hg

theorem Globals.Separate.log_ne_swap (other : Text) : g.revertActions ≠ swap other := by
  intro heq
  exact hg.log_not_swap (heq ▸ List.suffix_append _ _)

theorem Globals.Separate.log_ne_backupOf (other : Text) : g.revertActions ≠ g.backupOf other := by
  intro heq
  exact hg.log_outside (heq ▸ (List.prefix_append _ _).trans (List.prefix_append _ _))

theorem Globals.Separate.swap_ne_backupOf (other : Text) :
    swap g.revertActions ≠ g.backupOf other := by
  intro heq
  exact hg.log_outside (heq ▸ List.prefix_append _ _)

theorem Globals.Separate.sums_ne_swap (other : Text) : g.sumCsv ≠ swap other := by
  intro heq
  exact hg.sums_not_swap (heq ▸ List.suffix_append _ _)

theorem Globals.Separate.sums_ne_backupOf (other : Text) : g.sumCsv ≠ g.backupOf other := by
  intro heq
  exact hg.sums_outside (heq ▸ List.prefix_append _ _)

end

/-! ## Prepending a command -/

/-- Both files can be opened. -/
theorem openPlus_of_some {file : Text} {s : State} {node : Node} (hlogOnly : g.logOnly = false)
    (hne : file ≠ []) (hfile : s.files file = some node) (hswap : s.files (swap file) = none) :
    openPlus g ⟨true, true⟩ file s =
      (⟨true, some node.content, true⟩, s.write (swap file) (some (g.newNode []))) := by
  simp [openPlus, hlogOnly, hne, hfile, State.exists, hswap]

/-- Writing the swap file and renaming it replaces the file. -/
theorem rename_swap {file : Text} {s : State} (content : Text) (node : Node)
    (hswap : s.files (swap file) = none) :
    rename true (swap file) file (overwrite g (swap file) content
      (s.write (swap file) (some node))) =
        (true, s.write file (some { node with content := content })) := by
  have hgone : Function.update s.files (swap file) none = s.files := by
    rw [← hswap, Function.update_eq_self]
  simp [rename, overwrite, State.write, Function.update_idem, hgone]

/-- Every call succeeds. -/
def LogCalls.succeed : LogCalls :=
  ⟨⟨true, true⟩, true⟩

/-- The script gets a first line more. -/
theorem revertLog_of_some (hg : g.Separate) (hlogOnly : g.logOnly = false) {s : State} {node : Node}
    (hfile : s.files g.revertActions = some node)
    (hswap : s.files (swap g.revertActions) = none)
    (hscript : Perl.Terminated node.content) (command : Text) :
    revertLog g .succeed command s = s.write g.revertActions
      (some ⟨command ++ '\n' :: node.content, 0o700, 0, 0⟩) := by
  have hkept : (Perl.shifted (Perl.lines node.content)).flatten = node.content := by
    rw [Perl.shifted_lines hscript, Perl.flatten_lines]
  have hopen := openPlus_of_some hlogOnly hg.log_ne_nil hfile hswap
  have hrename := rename_swap (g := g) (command ++ '\n' :: node.content) (g.newNode []) hswap
  have hcreate : createScript g s = s := by simp [createScript, State.exists, hfile]
  simp only [revertLog, LogCalls.succeed, hcreate, if_true, hopen, printTo, Option.getD_some, hkept,
    hrename]
  simp [State.write, Function.update_idem]

/-- Where the calls succeed and no swap file is in the way, the script gets a first line more, and
nothing else changes. -/
theorem revertLog_eq (hg : g.Separate) (hlogOnly : g.logOnly = false) {s : State}
    (hswap : s.files (swap g.revertActions) = none)
    (hscript : Perl.Terminated (s.revertScript g)) (command : Text) :
    revertLog g .succeed command s = s.write g.revertActions
      (some ⟨command ++ '\n' :: s.revertScript g, 0o700, 0, 0⟩) := by
  cases hfile : s.files g.revertActions with
  | some node =>
      have hnode : s.revertScript g = node.content := by simp [State.revertScript, hfile]
      rw [hnode] at hscript ⊢
      exact revertLog_of_some hg hlogOnly hfile hswap hscript command
  | none =>
      have hnode : s.revertScript g = [] := by simp [State.revertScript, hfile]
      have hcreated : revertLog g .succeed command s = revertLog g .succeed command
          (s.write g.revertActions (some ⟨[], 0o700, 0, 0⟩)) := by
        simp [revertLog, createScript, State.exists, hfile]
      rw [hcreated, revertLog_of_some hg hlogOnly (write_files_self ..)
        (by rw [write_files_of_ne _ (hg.log_ne_swap _).symm, hswap]) Perl.terminated_nil, hnode]
      simp [State.write, Function.update_idem]

/-! ## The place of a file in the journal -/

/-- What a line of the script says about a file. -/
def entryOf (g : Globals) (file line : Text) : Option Journal.Entry :=
  match fields isIfs line with
  | [command, source, target] =>
      if command = g.mv && source = g.backupOf file && target = file then some .restore else none
  | [command, target] => if command = g.rm && target = file then some .reset else none
  | _ => none

/-- The file, its copy, and the commands about it. -/
def State.place (s : State) (g : Globals) (file : Text) : Journal.Place Node where
  current := s.files file
  image := s.files (g.backupOf file)
  entries := (allRecords '\n' (s.revertScript g)).filterMap (entryOf g file)

/-- A line that the functions write: a command about a file of the system, or nothing. -/
def Logged (g : Globals) (line : Text) : Prop :=
  fields isIfs line = [] ∨ ∃ file, Foreign g file ∧
    (fields isIfs line = [g.mv, g.backupOf file, file] ∨ fields isIfs line = [g.rm, file])

/-- The script is in order. -/
structure Sound (g : Globals) (s : State) : Prop where
  swap_free : s.files (swap g.revertActions) = none
  terminated : Perl.Terminated (s.revertScript g)
  logged : ∀ line ∈ allRecords '\n' (s.revertScript g), Logged g line

section

variable {commands : Commands} (hcommands : commands.Succeed g)

include hcommands

/-- One line of the script undoes the entry that it is for a file, and leaves the file alone if it
is none. -/
theorem run_undo {line file : Text} (hline : Logged g line) (hfile : Foreign g file) (s : State) :
    ((commands.run (fields isIfs line) s).files file,
        (commands.run (fields isIfs line) s).files (g.backupOf file)) =
      (entryOf g file line).elim (s.files file, s.files (g.backupOf file))
        (Journal.undo · (s.files file, s.files (g.backupOf file))) := by
  rcases hline with hblank | ⟨other, hother, hrestore | hreset⟩
  · simp [hcommands.nothing, entryOf, hblank]
  · rw [entryOf, hrestore, hcommands.moves]
    by_cases heq : other = file
    · subst heq
      cases himage : s.files (g.backupOf other) with
      | none => simp [rename, himage, Journal.undo]
      | some node =>
          have hne := hother.ne_backupOf other
          simp [rename, himage, Journal.undo, hne.symm]
    · have hback : g.backupOf file ≠ g.backupOf other := fun h => heq (backupOf_inj.mp h).symm
      cases himage : s.files (g.backupOf other) with
      | none => simp [rename, himage, heq]
      | some node =>
          have hne := hfile.ne_backupOf other
          have hne' := hother.ne_backupOf file
          simp [rename, himage, heq, Ne.symm heq, hback, hne, hne'.symm]
  · rw [entryOf, hreset, hcommands.removes]
    by_cases heq : other = file
    · subst heq
      have hne := hother.ne_backupOf other
      simp [Journal.undo, hne.symm]
    · have hne := hother.ne_backupOf file
      simp [heq, Ne.symm heq, hne.symm]

/-- The script undoes the journal of each file. -/
theorem foldl_run {lines : List Text} {file : Text} (hlines : ∀ line ∈ lines, Logged g line)
    (hfile : Foreign g file) (s : State) :
    let s' := lines.foldl (fun s line => commands.run (fields isIfs line) s) s
    (s'.files file, s'.files (g.backupOf file)) =
      after Journal.undo (s.files file, s.files (g.backupOf file))
        (lines.filterMap (entryOf g file)) := by
  induction lines generalizing s with
  | nil => rfl
  | cons line lines ih =>
      have hline := run_undo hcommands (hlines line List.mem_cons_self) hfile s
      have hrest := ih (fun l hl => hlines l (List.mem_cons_of_mem _ hl))
        (commands.run (fields isIfs line) s)
      rw [hline] at hrest
      refine hrest.trans ?_
      cases hentry : entryOf g file line <;> simp [hentry]

/-- `bastille -r` leaves at every file what undoing its journal leaves there. -/
theorem revert_files {s : State} (hs : Sound g s) {file : Text} (hfile : Foreign g file) :
    (revert commands g s).files file = (s.place g file).undone :=
  congrArg Prod.fst (foldl_run hcommands hs.logged hfile s)

end

/-! ## What the functions record -/

theorem isPathChar_not_isIfs {c : Char} (h : isPathChar c = true) : isIfs c = false := by
  have hspace : c ≠ ' ' := by rintro rfl; exact absurd h (by decide)
  have htab : c ≠ '\t' := by rintro rfl; exact absurd h (by decide)
  have hnewline : c ≠ '\n' := by rintro rfl; exact absurd h (by decide)
  simp [isIfs, hspace, htab, hnewline]

theorem not_isIfs_of_isPlainPath {file : Text} (h : isPlainPath file = true) :
    file ≠ [] ∧ ∀ c ∈ file, isIfs c = false := by
  simp only [isPlainPath, Bool.and_eq_true, List.all_eq_true] at h
  refine ⟨?_, fun c hc => isPathChar_not_isIfs (h.2 c hc)⟩
  rintro rfl
  exact absurd h.1 (by decide)

theorem not_isIfs_backupOf (hg : g.Separate) {file : Text} (hfile : Foreign g file) :
    g.backupOf file ≠ [] ∧ ∀ c ∈ g.backupOf file, isIfs c = false := by
  obtain ⟨hne, hbackup⟩ := not_isIfs_of_isPlainPath hg.backup
  refine ⟨by simp [Globals.backupOf, hne], fun c hc => ?_⟩
  rcases List.mem_append.mp hc with hc | hc
  · exact hbackup c hc
  · exact (not_isIfs_of_isPlainPath hfile.plain).2 c hc

/-- The words of the command that moves a copy back. -/
theorem fields_restore (hg : g.Separate) {file : Text} (hfile : Foreign g file) :
    fields isIfs (g.mvCommand file) = [g.mv, g.backupOf file, file] := by
  obtain ⟨hmv, hmv'⟩ := not_isIfs_of_isPlainPath hg.mv
  obtain ⟨hback, hback'⟩ := not_isIfs_backupOf hg hfile
  obtain ⟨hne, hfile'⟩ := not_isIfs_of_isPlainPath hfile.plain
  rw [Globals.mvCommand, List.append_assoc, List.cons_append,
    fields_append_sep_of_forall (by decide) hmv hmv',
    fields_append_sep_of_forall (by decide) hback hback', fields_eq_singleton hne hfile']

/-- The words of the command that removes a file, with or without a blank after them. -/
theorem fields_reset (hg : g.Separate) {file blank : Text} (hfile : Foreign g file)
    (hblank : ∀ c ∈ blank, isIfs c = true) :
    fields isIfs (g.rmCommand file ++ blank) = [g.rm, file] := by
  obtain ⟨hrm, hrm'⟩ := not_isIfs_of_isPlainPath hg.rm
  obtain ⟨hne, hfile'⟩ := not_isIfs_of_isPlainPath hfile.plain
  rw [fields_append_of_forall hblank, Globals.rmCommand,
    fields_append_sep_of_forall (by decide) hrm hrm',
    fields_eq_singleton hne hfile']

theorem newline_not_mem_of_not_isIfs {t : Text} (h : ∀ c ∈ t, isIfs c = false) : '\n' ∉ t :=
  fun hmem => absurd (h _ hmem) (by decide)

theorem newline_not_mem_mvCommand (hg : g.Separate) {file : Text} (hfile : Foreign g file) :
    '\n' ∉ g.mvCommand file := by
  have hmv := newline_not_mem_of_not_isIfs (not_isIfs_of_isPlainPath hg.mv).2
  have hback := newline_not_mem_of_not_isIfs (not_isIfs_backupOf hg hfile).2
  have hfile' := newline_not_mem_of_not_isIfs (not_isIfs_of_isPlainPath hfile.plain).2
  simp [Globals.mvCommand, hmv, hback, hfile']

theorem newline_not_mem_rmCommand (hg : g.Separate) {file : Text} (hfile : Foreign g file) :
    '\n' ∉ g.rmCommand file := by
  have hrm := newline_not_mem_of_not_isIfs (not_isIfs_of_isPlainPath hg.rm).2
  have hfile' := newline_not_mem_of_not_isIfs (not_isIfs_of_isPlainPath hfile.plain).2
  simp [Globals.rmCommand, hrm, hfile']

/-- The lines that a command adds to the script. -/
structure Adds (g : Globals) (command : Text) (added : List Text) : Prop where
  terminate : command ++ ['\n'] = terminate '\n' added
  newline : ∀ line ∈ added, '\n' ∉ line
  logged : ∀ line ∈ added, Logged g line

theorem adds_mvCommand (hg : g.Separate) {file : Text} (hfile : Foreign g file) :
    Adds g (g.mvCommand file) [g.mvCommand file] where
  terminate := by simp
  newline := by simpa using newline_not_mem_mvCommand hg hfile
  logged := by
    intro line hline
    rw [List.mem_singleton.mp hline]
    exact Or.inr ⟨file, hfile, Or.inl (fields_restore hg hfile)⟩

/-- `B_revert_log` ends the line once more, so that a blank line follows. -/
theorem adds_rmCommand (hg : g.Separate) {file blank : Text} (hfile : Foreign g file)
    (hblank : blank = [] ∨ blank = [' ']) :
    Adds g (g.rmCommand file ++ blank ++ ['\n']) [g.rmCommand file ++ blank, []] where
  terminate := by simp
  newline := by
    have hrm := newline_not_mem_rmCommand hg hfile
    rcases hblank with rfl | rfl <;> simp [hrm]
  logged := by
    have hfields : fields isIfs (g.rmCommand file ++ blank) = [g.rm, file] :=
      fields_reset hg hfile (by rcases hblank with rfl | rfl <;> simp [isIfs])
    intro line hline
    rcases List.mem_cons.mp hline with rfl | hline
    · exact Or.inr ⟨file, hfile, Or.inr hfields⟩
    · rw [List.mem_singleton.mp hline]
      exact Or.inl fields_nil

section

variable (hg : g.Separate) (hlogOnly : g.logOnly = false) {s : State} (hs : Sound g s)
  {command : Text} {added : List Text} (h : Adds g command added)

include hg hlogOnly hs

/-- Only the script changes. -/
theorem revertLog_files {file : Text} (hne : file ≠ g.revertActions) :
    (revertLog g .succeed command s).files file = s.files file := by
  rw [revertLog_eq hg hlogOnly hs.swap_free hs.terminated, write_files_of_ne _ hne]

include h

/-- A command is entered before those that are in the script. -/
theorem revertLog_script :
    (revertLog g .succeed command s).revertScript g =
      terminate '\n' added ++ s.revertScript g := by
  rw [revertLog_eq hg hlogOnly hs.swap_free hs.terminated, ← h.terminate]
  simp [State.revertScript]

theorem revertLog_sound : Sound g (revertLog g .succeed command s) := by
  have hscript := revertLog_script hg hlogOnly hs h
  refine ⟨?_, ?_, fun line hline => ?_⟩
  · rw [revertLog_files hg hlogOnly hs (hg.log_ne_swap _).symm, hs.swap_free]
  · rw [hscript, Perl.Terminated, remainder_terminate h.newline]
    exact hs.terminated
  · rw [hscript, allRecords_terminate_append h.newline] at hline
    rcases List.mem_append.mp hline with hline | hline
    · exact h.logged line hline
    · exact hs.logged line hline

theorem revertLog_place {file : Text} (hfile : Foreign g file) :
    (revertLog g .succeed command s).place g file = { s.place g file with
      entries := added.filterMap (entryOf g file) ++ (s.place g file).entries } := by
  simp only [State.place, revertLog_script hg hlogOnly hs h, List.filterMap_append,
    allRecords_terminate_append h.newline, revertLog_files hg hlogOnly hs hfile.ne_log,
    revertLog_files hg hlogOnly hs (hg.log_ne_backupOf file).symm]

end

theorem entryOf_mvCommand (hg : g.Separate) {file target : Text} (htarget : Foreign g target) :
    entryOf g file (g.mvCommand target) = if target = file then some .restore else none := by
  simp only [entryOf, fields_restore hg htarget, backupOf_inj, decide_true, Bool.true_and,
    Bool.and_self, decide_eq_true_eq]

theorem filterMap_entryOf_rmCommand (hg : g.Separate) {file target blank : Text}
    (htarget : Foreign g target) (hblank : blank = [] ∨ blank = [' ']) :
    [g.rmCommand target ++ blank, []].filterMap (entryOf g file) =
      if target = file then [.reset] else [] := by
  have hfields : fields isIfs (g.rmCommand target ++ blank) = [g.rm, target] :=
    fields_reset hg htarget (by rcases hblank with rfl | rfl <;> simp [isIfs])
  by_cases heq : target = file
  · subst heq
    simp [entryOf, hfields]
  · simp [entryOf, hfields, heq]

end MetaSecurity.Bastille
