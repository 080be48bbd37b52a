import MetaSecurity.Bastille.Revert

/-!
# What a call can touch

Whatever the system calls come to, a call changes the file it is about, its copy, its swap file, the
script and the sums, and nothing else. Two results rest on this. A swap file that was left behind
stays where it is, so that one failed edit makes all later edits of the file fail. And with
`GLOBAL_LOGONLY` everything stays as it is but for the targets of `B_cp` and `B_place`, for which
the script has no command then.
-/

namespace MetaSecurity.Bastille

open Library Shell Traces

variable {g : Globals}

/-- Only these files can have changed. -/
def Within (files : List Text) (s s' : State) : Prop :=
  ∀ file, file ∉ files → s'.files file = s.files file

theorem Within.refl (files : List Text) (s : State) : Within files s s :=
  fun _ _ => rfl

theorem Within.trans {files : List Text} {s s' s'' : State} (h : Within files s s')
    (h' : Within files s' s'') : Within files s s'' :=
  fun file hfile => (h' file hfile).trans (h file hfile)

theorem Within.mono {files files' : List Text} {s s' : State} (h : Within files s s')
    (hsub : files ⊆ files') : Within files' s s' :=
  fun file hfile => h file fun hmem => hfile (hsub hmem)

theorem AgreesOff.within {apart : Text} {s s' : State} (h : AgreesOff apart s s')
    {files : List Text} (hmem : apart ∈ files) : Within files s s' :=
  fun file hfile => h file fun heq => hfile (heq ▸ hmem)

theorem write_within {file : Text} {files : List Text} (hmem : file ∈ files) (s : State)
    (node : Option Node) : Within files s (s.write file node) :=
  (write_agreesOff s file node).within hmem

theorem rename_within {source target : Text} {files : List Text} (hsource : source ∈ files)
    (htarget : target ∈ files) (renames : Bool) (s : State) :
    Within files s (rename renames source target s).2 := by
  rcases rename_cases renames source target s with h | ⟨node, h⟩
  · rw [h]
    exact .refl files s
  · rw [h]
    exact (write_within hsource s none).trans (write_within htarget _ _)

/-- The script and its swap file. -/
def Globals.logFiles (g : Globals) : List Text :=
  [g.revertActions, swap g.revertActions]

theorem revertLog_within (calls : LogCalls) (command : Text) (s : State) :
    Within g.logFiles s (revertLog g calls command s) := by
  have hlog : g.revertActions ∈ g.logFiles := List.mem_cons_self
  have hswap : swap g.revertActions ∈ g.logFiles := List.mem_cons_of_mem _ List.mem_cons_self
  have hcreate : Within g.logFiles s (createScript g s) := by
    unfold createScript
    split
    · exact .refl _ s
    · exact write_within hlog s _
  have hopen := (openPlus_agreesOff (g := g) calls.opens g.revertActions (createScript g s)).within
    hswap
  unfold revertLog
  dsimp only
  generalize openPlus g calls.opens g.revertActions (createScript g s) = opened at hopen ⊢
  have hprint := (printTo_agreesOff (g := g) opened.1 g.revertActions
    (command ++ '\n' :: (Perl.shifted (Perl.lines (opened.1.original.getD []))).flatten)
    opened.2).within hswap
  have hrename := rename_within hswap hlog calls.renames (printTo g opened.1 g.revertActions
    (command ++ '\n' :: (Perl.shifted (Perl.lines (opened.1.original.getD []))).flatten) opened.2)
  have hrenamed := ((hcreate.trans hopen).trans hprint).trans hrename
  split
  · exact hrenamed.trans (write_within hlog _ _)
  · exact hrenamed

section

variable {files : List Text} {target : Text} (htarget : target ∈ files)
  (hback : g.backupOf target ∈ files) (hsums : g.sumCsv ∈ files) (hlog : g.logFiles ⊆ files)

include hback hlog in
theorem backupFile_within (calls : BackupCalls) (s : State) :
    Within files s (backupFile g calls target s).2 := by
  unfold backupFile
  dsimp only
  split
  · exact (write_within hback s _).trans ((revertLog_within calls.log _ _).mono hlog)
  · exact .refl _ s

include hsums in
theorem setSum_within (calls : SumCalls) (s : State) :
    Within files s (setSum g calls target s) :=
  (setSum_agreesOff calls target s).within hsums

include htarget hback hsums hlog

theorem closePlus_within (hswap : swap target ∈ files) (calls : CloseCalls) (s : State) :
    Within files s (closePlus g calls target s).2 := by
  have hretain := (retain_agreesOff calls target s).within hswap
  have hbackup := backupFile_within hback hlog calls.backup (retain calls target s)
  have hrename := rename_within hswap htarget calls.renames
    (backupFile g calls.backup target (retain calls target s)).2
  unfold closePlus
  split
  · exact .refl _ s
  split
  · exact .refl _ s
  split
  · exact .refl _ s
  · exact ((hretain.trans hbackup).trans hrename).trans (setSum_within hsums calls.sum _)

theorem edit_within (hswap : swap target ∈ files) (calls : OpenCalls × CloseCalls)
    (change : Text → Text) (s : State) : Within files s (edit g calls target change s).2 := by
  have hopen := (openPlus_agreesOff (g := g) calls.1 target s).within hswap
  unfold edit
  dsimp only
  split
  · exact (hopen.trans ((printTo_agreesOff _ target _ _).within hswap)).trans
      (closePlus_within htarget hback hsums hlog hswap calls.2 _)
  · exact hopen

theorem cp_within (calls : CopyCalls) (source : Text) (s : State) :
    Within files s (cp g calls source target s).2 := by
  have hready : Within files s
      (if s.exists target then (backupFile g calls.backup target s).2 else s) := by
    split
    · exact backupFile_within hback hlog calls.backup s
    · exact .refl _ s
  have hdone : ∀ s' s'', Within files s s' → Within files s' s'' →
      Within files s (setSum g calls.sum target s'') :=
    fun s' s'' h h' => (h.trans h').trans (setSum_within hsums calls.sum s'')
  unfold cp
  dsimp only
  split
  · exact hdone _ _ hready (((overwrite_agreesOff target _ _).within htarget).trans
      ((revertLog_within calls.log _ _).mono hlog))
  · exact hdone _ _ hready (write_within htarget _ _)
  · exact hdone _ _ hready (.refl _ _)

omit hsums in
theorem deleteFile_within (calls : DeleteCalls) (s : State) :
    Within files s (deleteFile g calls target s).2 := by
  have hbackup := backupFile_within hback hlog calls.backup s
  unfold deleteFile
  split
  · exact .refl _ s
  split
  next s' heq =>
    rw [heq] at hbackup
    split
    · exact hbackup.trans (write_within htarget _ _)
    · exact hbackup
  next s' heq =>
    rw [heq] at hbackup
    exact hbackup

omit hback hsums in
theorem createFile_within (calls : CreateCalls) (s : State) :
    Within files s (createFile g calls target s).2 := by
  unfold createFile
  split
  · exact .refl _ s
  split
  · exact .refl _ s
  split
  · exact (write_within htarget s _).trans ((revertLog_within calls.log _ _).mono hlog)
  · exact .refl _ s

end

/-- The files that a call can change. -/
def Operation.touched (g : Globals) : Operation → List Text
  | edit _ file _ => file :: swap file :: g.backupOf file :: g.sumCsv :: g.logFiles
  | delete _ file => file :: g.backupOf file :: g.logFiles
  | create _ file => file :: g.logFiles
  | cp _ _ target => target :: g.backupOf target :: g.sumCsv :: g.logFiles
  | place _ _ target => target :: g.backupOf target :: g.sumCsv :: g.logFiles

/-- A call changes no other file, whatever the system calls come to. -/
theorem perform_within (operation : Operation) (s : State) :
    Within (operation.touched g) s (perform g operation s) := by
  cases operation with
  | edit calls file change =>
      exact edit_within (by simp [Operation.touched]) (by simp [Operation.touched])
        (by simp [Operation.touched]) (fun _ h => by simp [Operation.touched, h])
        (by simp [Operation.touched]) calls change s
  | delete calls file =>
      exact deleteFile_within (by simp [Operation.touched]) (by simp [Operation.touched])
        (fun _ h => by simp [Operation.touched, h]) calls s
  | create calls file =>
      exact createFile_within (by simp [Operation.touched])
        (fun _ h => by simp [Operation.touched, h]) calls s
  | cp calls source target =>
      exact cp_within (by simp [Operation.touched]) (by simp [Operation.touched])
        (by simp [Operation.touched]) (fun _ h => by simp [Operation.touched, h]) calls source s
  | place calls source target =>
      exact cp_within (by simp [Operation.touched]) (by simp [Operation.touched])
        (by simp [Operation.touched]) (fun _ h => by simp [Operation.touched, h]) calls _ s

/-! ## A swap file that was left behind -/

theorem edit_of_swap (hlogOnly : g.logOnly = false) {target : Text} {s : State}
    (hswap : s.exists (swap target) = true) (calls : OpenCalls × CloseCalls)
    (change : Text → Text) : edit g calls target change s = (false, s) := by
  have hopen : openPlus g calls.1 target s = (⟨false, none, false⟩, s) := by
    unfold openPlus
    rw [if_neg (by simp [hlogOnly])]
    split
    · rfl
    · rfl
  simp [edit, hopen]

/-- Where `B_close_plus` fails, it has done nothing. -/
theorem closePlus_of_failed {calls : CloseCalls} {target : Text} {s : State}
    (hfailed : (closePlus g calls target s).1 = false) : (closePlus g calls target s).2 = s := by
  unfold closePlus at hfailed ⊢
  split
  · rfl
  next hcond =>
  rw [if_neg hcond] at hfailed
  split
  · rfl
  next hlog =>
  rw [if_neg hlog] at hfailed
  split
  · rfl
  next hcloses =>
  rw [if_neg hcloses] at hfailed
  exact absurd hfailed (by simp)

/-- An edit that fails leaves the swap file, unless that could not be written. -/
theorem exists_swap_of_edit_failed (hlogOnly : g.logOnly = false) {target : Text}
    (hne : target ≠ []) {s : State} {calls : OpenCalls × CloseCalls} {change : Text → Text}
    (hwrites : calls.1.writes = true) (hfailed : (edit g calls target change s).1 = false) :
    (edit g calls target change s).2.exists (swap target) = true := by
  cases hswap : s.exists (swap target) with
  | true => rwa [edit_of_swap hlogOnly hswap]
  | false =>
      obtain ⟨original, hopen⟩ : ∃ original, openPlus g calls.1 target s =
          (⟨original.isSome, original, true⟩, s.write (swap target) (some (g.newNode []))) := by
        refine ⟨if calls.1.reads then (s.files target).map Node.content else none, ?_⟩
        simp [openPlus, hlogOnly, hne, hswap, hwrites]
      have hprinted : ∀ content, (printTo g ⟨original.isSome, original, true⟩ target content
          (s.write (swap target) (some (g.newNode [])))).exists (swap target) = true := by
        intro content
        simp [printTo, overwrite, State.exists]
      unfold edit at hfailed ⊢
      rw [hopen] at hfailed ⊢
      dsimp only at hfailed ⊢
      split
      next horiginal =>
        rw [if_pos horiginal] at hfailed
        rw [closePlus_of_failed hfailed]
        exact hprinted _
      · simp [State.exists]

/-- The files of a run are files of the system. -/
def AllForeign (g : Globals) (operations : List Operation) : Prop :=
  ∀ operation ∈ operations, Foreign g operation.target

/-- No call on a file of the system removes the swap file of one, but for an edit of this file. -/
theorem exists_swap_perform (hg : g.Separate) (hlogOnly : g.logOnly = false) {target : Text}
    (htarget : Foreign g target) {s : State} (hswap : s.exists (swap target) = true)
    {operation : Operation} (hoperation : Foreign g operation.target) :
    (perform g operation s).exists (swap target) = true := by
  have hback : ∀ other, swap target ≠ g.backupOf other := htarget.swap_ne_backupOf
  have hlog : swap target ∉ g.logFiles := by
    simp [Globals.logFiles, (hg.log_ne_swap target).symm, swap_inj, htarget.ne_log]
  have hsums : swap target ≠ g.sumCsv := (hg.sums_ne_swap target).symm
  have hkept : swap target ∉ operation.touched g →
      (perform g operation s).exists (swap target) = true := by
    intro hmem
    rwa [State.exists, perform_within operation s _ hmem]
  have hne : swap target ≠ operation.target := (hoperation.ne_swap target).symm
  cases operation with
  | edit calls file change =>
      by_cases heq : file = target
      · subst heq
        simpa [perform, edit_of_swap hlogOnly hswap] using hswap
      · refine hkept ?_
        simpa [Operation.touched, Operation.target, hback, hlog, hsums, swap_inj, Ne.symm heq]
          using hne
  | delete | create | cp | place =>
      refine hkept ?_
      simpa [Operation.touched, Operation.target, hback, hlog, hsums] using hne

/-- Once an edit of a file has failed, every later edit of it fails as well and changes nothing,
whatever calls on files of the system come in between. -/
theorem edits_fail_after_failure (hg : g.Separate) (hlogOnly : g.logOnly = false) {target : Text}
    (htarget : Foreign g target) {s : State} {calls : OpenCalls × CloseCalls}
    {change : Text → Text} (hwrites : calls.1.writes = true)
    (hfailed : (edit g calls target change s).1 = false) {operations : List Operation}
    (h : AllForeign g operations) (calls' : OpenCalls × CloseCalls) (change' : Text → Text) :
    edit g calls' target change' (after (perform g) (edit g calls target change s).2 operations) =
      (false, after (perform g) (edit g calls target change s).2 operations) := by
  refine edit_of_swap hlogOnly ?_ calls' change'
  have hswap := exists_swap_of_edit_failed hlogOnly htarget.ne_nil hwrites hfailed
  generalize (edit g calls target change s).2 = s' at hswap
  induction operations generalizing s' with
  | nil => exact hswap
  | cons operation operations ih =>
      exact ih (fun other hmem => h other (List.mem_cons_of_mem _ hmem)) _
        (exists_swap_perform hg hlogOnly htarget hswap (h operation List.mem_cons_self))

/-- A file that is edited before it exists cannot be edited after it has been created. -/
theorem edits_fail_after_create :
    let missing := edit smallGlobals editCalls "/etc/a".toList id ⟨fun _ => none, ∅⟩
    let created := after (perform smallGlobals) missing.2
      [.create ⟨true, .succeed⟩ "/etc/a".toList]
    created.exists "/etc/a".toList = true ∧
      edit smallGlobals editCalls "/etc/a".toList (fun t => 'y' :: t) created = (false, created) :=
  ⟨by decide +kernel, edits_fail_after_failure smallGlobals_separate rfl foreign_small rfl
    (by decide +kernel) (by simpa [AllForeign, Operation.target] using foreign_small) _ _⟩

/-! ## `GLOBAL_LOGONLY` -/

/-- The script is missing or empty. -/
structure Blank (g : Globals) (s : State) : Prop where
  swap_free : s.files (swap g.revertActions) = none
  script : s.revertScript g = []

theorem Blank.of_within {files : List Text} {s s' : State} (hs : Blank g s)
    (h : Within files s s') (hlog : g.revertActions ∉ files)
    (hswap : swap g.revertActions ∉ files) : Blank g s' where
  swap_free := by rw [h _ hswap, hs.swap_free]
  script := by rw [State.revertScript, h _ hlog, ← State.revertScript, hs.script]

/-- The file is the target of a copy. -/
def Operation.copiesTo (file : Text) : Operation → Prop
  | edit _ _ _ => False
  | delete _ _ => False
  | create _ _ => False
  | cp _ _ target => target = file
  | place _ _ target => target = file

section

variable (hg : g.Separate) (hlogOnly : g.logOnly = true) {s : State} (hs : Blank g s)

include hg hlogOnly hs

/-- Commands are not recorded. -/
theorem revertLog_blank (calls : LogCalls) (command : Text) :
    Blank g (revertLog g calls command s) := by
  have hopen : openPlus g calls.opens g.revertActions (createScript g s) =
      (⟨true, none, false⟩, createScript g s) := by
    simp [openPlus, hlogOnly]
  have hcreate : Blank g (createScript g s) := by
    unfold createScript
    split
    · exact hs
    · exact ⟨by rw [write_files_of_ne _ (hg.log_ne_swap _).symm, hs.swap_free],
        by simp [State.revertScript]⟩
  have hrename : rename calls.renames (swap g.revertActions) g.revertActions (createScript g s) =
      (false, createScript g s) := by
    simp [rename, hcreate.swap_free]
  unfold revertLog
  rw [hopen]
  simpa [printTo, hrename] using hcreate

theorem backupFile_blank (calls : BackupCalls) (target : Text) :
    Blank g (backupFile g calls target s).2 := by
  have hwrite := hs.of_within (write_within List.mem_cons_self s
    (calls.copy.leaves (s.files target)))
    (show g.revertActions ∉ [g.backupOf target] by simpa using hg.log_ne_backupOf target)
    (show swap g.revertActions ∉ [g.backupOf target] by simpa using hg.swap_ne_backupOf target)
  unfold backupFile
  dsimp only
  split
  · exact revertLog_blank hg hlogOnly hwrite calls.log _
  · exact hs

theorem cp_blank (calls : CopyCalls) (source : Text) {target : Text} (htarget : Foreign g target) :
    Blank g (cp g calls source target s).2 := by
  have hready :
      Blank g (if s.exists target then (backupFile g calls.backup target s).2 else s) := by
    split
    · exact backupFile_blank hg hlogOnly hs calls.backup target
    · exact hs
  have hwrite : ∀ {s₁ s₂ : State}, Blank g s₁ → Within [target] s₁ s₂ → Blank g s₂ :=
    fun h h' => h.of_within h' (by simpa using htarget.ne_log.symm)
      (by simpa using (htarget.ne_swap g.revertActions).symm)
  have hdone : ∀ {s₁ : State}, Blank g s₁ → Blank g (setSum g calls.sum target s₁) :=
    fun h => h.of_within (show Within [g.sumCsv] _ _ from setSum_within List.mem_cons_self _ _)
      (by simpa using hg.sums_ne_log.symm) (by simpa using (hg.sums_ne_swap _).symm)
  unfold cp
  dsimp only
  split
  · exact hdone (revertLog_blank hg hlogOnly
      (hwrite hready ((overwrite_agreesOff target _ _).within List.mem_cons_self)) calls.log _)
  · exact hdone (hwrite hready (write_within List.mem_cons_self _ _))
  · exact hdone hready

omit hg hs in
/-- `B_close_plus` and the functions that only delete or create change nothing. -/
theorem perform_of_not_copies {operation : Operation}
    (h : ¬ operation.copiesTo operation.target) : perform g operation s = s := by
  cases operation with
  | edit calls file change =>
      have hopen : openPlus g calls.1 file s = (⟨true, none, false⟩, s) := by
        simp [openPlus, hlogOnly]
      have hclose : (closePlus g calls.2 file s).2 = s := by
        unfold closePlus
        split
        · rfl
        · rfl
      simp [perform, edit, hopen, printTo, hclose]
  | delete calls file => simp [perform, deleteFile, hlogOnly]
  | create calls file =>
      simp only [perform, createFile, hlogOnly]
      split
      · rfl
      · rfl
  | cp calls source target => exact absurd rfl h
  | place calls source target => exact absurd rfl h

/-- With `GLOBAL_LOGONLY` a call changes none of the files of the system but the target of a copy,
and the script stays empty. -/
theorem perform_blank {operation : Operation} (hforeign : Foreign g operation.target) :
    Blank g (perform g operation s) ∧ ∀ file, Foreign g file → ¬ operation.copiesTo file →
      (perform g operation s).files file = s.files file := by
  by_cases hcopies : operation.copiesTo operation.target
  · have hothers : ∀ {calls : CopyCalls} {source target : Text}, Foreign g target →
        ∀ file, Foreign g file → target ≠ file →
          (cp g calls source target s).2.files file = s.files file := by
      intro calls source target _ file hfile hne
      have hlog : file ∉ g.logFiles := by
        simp [Globals.logFiles, hfile.ne_log, hfile.ne_swap]
      refine perform_within (.cp calls source target) s file ?_
      simp [Operation.touched, hne.symm, hfile.ne_backupOf, hfile.ne_sums, hlog]
    cases operation with
    | edit | delete | create => exact absurd hcopies id
    | cp calls source target =>
        exact ⟨cp_blank hg hlogOnly hs calls source hforeign, hothers hforeign⟩
    | place calls source target =>
        exact ⟨cp_blank hg hlogOnly hs calls _ hforeign, hothers hforeign⟩
  · rw [perform_of_not_copies hlogOnly hcopies]
    exact ⟨hs, fun _ _ _ => rfl⟩

end

theorem after_blank (hg : g.Separate) (hlogOnly : g.logOnly = true) {s : State} (hs : Blank g s)
    {operations : List Operation} (h : AllForeign g operations) :
    Blank g (after (perform g) s operations) ∧ ∀ file, Foreign g file →
      (∀ operation ∈ operations, ¬ operation.copiesTo file) →
        (after (perform g) s operations).files file = s.files file := by
  induction operations generalizing s with
  | nil => exact ⟨hs, fun _ _ _ => rfl⟩
  | cons operation operations ih =>
      obtain ⟨hblank, hstep⟩ := perform_blank hg hlogOnly hs (h operation List.mem_cons_self)
      obtain ⟨hlater, hrest⟩ := ih hblank fun other hmem => h other (List.mem_cons_of_mem _ hmem)
      refine ⟨hlater, fun file hfile hcopies => ?_⟩
      have hcopies' : ∀ other ∈ operations, ¬ other.copiesTo file := fun other hmem =>
        hcopies other (List.mem_cons_of_mem _ hmem)
      exact (hrest file hfile hcopies').trans (hstep file hfile (hcopies _ List.mem_cons_self))

/-- A run with `GLOBAL_LOGONLY` changes no file of the system but the targets of `B_cp` and
`B_place`, and what it changes there `bastille -r` does not take back: it does nothing. -/
theorem logOnly_run (hg : g.Separate) (hlogOnly : g.logOnly = true) (commands : Commands)
    {s : State} (hs : Blank g s) {operations : List Operation} (h : AllForeign g operations) :
    (∀ file, Foreign g file → (∀ operation ∈ operations, ¬ operation.copiesTo file) →
      (after (perform g) s operations).files file = s.files file) ∧
    revert commands g (after (perform g) s operations) = after (perform g) s operations := by
  obtain ⟨hblank, hfiles⟩ := after_blank hg hlogOnly hs h
  refine ⟨hfiles, ?_⟩
  rw [revert, hblank.script, allRecords_nil, List.foldl_nil]

/-- A file is written over by a run that should only have logged, and stays so. -/
theorem logOnly_run_copies :
    let g := { smallGlobals with logOnly := true }
    let s : State := ⟨fun file =>
      if file = "/etc/a".toList then some ⟨['x', '\n'], 0o600, 3, 3⟩
      else if file = "/etc/b".toList then some ⟨[], 0o644, 0, 0⟩ else none, ∅⟩
    let s' := after (perform g) s
      [.delete ⟨⟨.complete, .succeed⟩, true⟩ "/etc/a".toList,
        .cp ⟨⟨.complete, .succeed⟩, .complete, .succeed, ⟨none, true⟩⟩ "/etc/a".toList
          "/etc/b".toList]
    s'.files "/etc/b".toList = some ⟨['x', '\n'], 0o644, 0, 0⟩ ∧
      (revert (.plain g) g s').files "/etc/b".toList = some ⟨['x', '\n'], 0o644, 0, 0⟩ := by
  intro g s s'
  have hseparate : g.Separate := by constructor <;> decide
  have hblank : Blank g s := ⟨by decide, by decide⟩
  have hcopied : s'.files "/etc/b".toList = some ⟨['x', '\n'], 0o644, 0, 0⟩ := by decide +kernel
  have hforeign : AllForeign g
      [.delete ⟨⟨.complete, .succeed⟩, true⟩ "/etc/a".toList,
        .cp ⟨⟨.complete, .succeed⟩, .complete, .succeed, ⟨none, true⟩⟩ "/etc/a".toList
          "/etc/b".toList] := by
    intro operation hmem
    rcases List.mem_cons.mp hmem with rfl | hmem
    · constructor <;> decide
    · rw [List.mem_singleton.mp hmem]
      constructor <;> decide
  refine ⟨hcopied, ?_⟩
  rw [(logOnly_run hseparate rfl (.plain g) hblank hforeign).2]
  exact hcopied

end MetaSecurity.Bastille
