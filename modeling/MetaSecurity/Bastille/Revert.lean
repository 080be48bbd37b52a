import MetaSecurity.Bastille.Script

/-!
# `bastille -r` takes the changes back

Each function of the API does to the file that it is about what some events of the journal do, and
nothing to other files. The events lose nothing as long as the record is kept, so that after any run
the script gives back every file, and the file as it was at the start never disappears.
-/

namespace MetaSecurity.Bastille

open Library Shell Traces

variable {g : Globals}

/-! ## What the functions do to the places -/

/-- What happens between two states is about one file: the script stays in order, the places of
other files stay as they are, and at this one there are events that lose nothing. -/
structure Moves (g : Globals) (target : Text) (s s' : State) : Prop where
  sound : Sound g s'
  others : ∀ file, Foreign g file → file ≠ target → s'.place g file = s.place g file
  reaches : Journal.Reaches (s.place g target) (s'.place g target)

theorem Moves.trans {target : Text} {s s' s'' : State} (h : Moves g target s s')
    (h' : Moves g target s' s'') : Moves g target s s'' where
  sound := h'.sound
  others file hfile hne := (h'.others file hfile hne).trans (h.others file hfile hne)
  reaches := h.reaches.trans h'.reaches

/-- A file that belongs to no place and is not the swap file of the script. -/
structure Apart (g : Globals) (file : Text) : Prop where
  foreign : ¬ Foreign g file
  ne_backupOf : ∀ other, file ≠ g.backupOf other
  ne_log : file ≠ g.revertActions
  ne_swap : file ≠ swap g.revertActions

theorem apart_swap (hg : g.Separate) {target : Text} (htarget : Foreign g target) :
    Apart g (swap target) where
  foreign := fun h => h.ne_swap target rfl
  ne_backupOf := htarget.swap_ne_backupOf
  ne_log := (hg.log_ne_swap target).symm
  ne_swap := fun heq => htarget.ne_log (swap_inj.mp heq)

theorem apart_sums (hg : g.Separate) : Apart g g.sumCsv where
  foreign := fun h => h.ne_sums rfl
  ne_backupOf := hg.sums_ne_backupOf
  ne_log := hg.sums_ne_log
  ne_swap := hg.sums_ne_swap _

/-- The state changes at one file at most. -/
def AgreesOff (apart : Text) (s s' : State) : Prop :=
  ∀ file, file ≠ apart → s'.files file = s.files file

theorem write_agreesOff (s : State) (file : Text) (node : Option Node) :
    AgreesOff file s (s.write file node) :=
  fun _ hne => write_files_of_ne s hne node

section

variable {apart : Text} {s s' : State} (h : AgreesOff apart s s')

include h

theorem AgreesOff.revertScript (hlog : apart ≠ g.revertActions) :
    s'.revertScript g = s.revertScript g := by
  rw [State.revertScript, h _ hlog.symm, State.revertScript]

theorem AgreesOff.sound (hlog : apart ≠ g.revertActions) (hswap : apart ≠ swap g.revertActions)
    (hs : Sound g s) : Sound g s' where
  swap_free := by rw [h _ hswap.symm, hs.swap_free]
  terminated := h.revertScript hlog ▸ hs.terminated
  logged := h.revertScript hlog ▸ hs.logged

theorem AgreesOff.place (hlog : apart ≠ g.revertActions) {file : Text} (hfile : file ≠ apart)
    (hback : g.backupOf file ≠ apart) : s'.place g file = s.place g file := by
  simp only [State.place, h.revertScript hlog, h file hfile, h _ hback]

theorem AgreesOff.foreign_place (happart : Apart g apart) {file : Text} (hfile : Foreign g file) :
    s'.place g file = s.place g file :=
  h.place happart.ne_log (fun heq => happart.foreign (heq ▸ hfile)) (happart.ne_backupOf file).symm

theorem AgreesOff.moves (happart : Apart g apart) (hs : Sound g s) {target : Text}
    (htarget : Foreign g target) : Moves g target s s' := by
  refine ⟨h.sound happart.ne_log happart.ne_swap hs,
    fun file hfile _ => h.foreign_place happart hfile, ?_⟩
  rw [h.foreign_place happart htarget]
  exact .refl _

end

/-! ## Each function -/

theorem setSum_agreesOff (calls : SumCalls) (file : Text) (s : State) :
    AgreesOff g.sumCsv s (setSum g calls file s) := by
  intro other hne
  unfold setSum
  split
  · cases calls.cksum with
    | none => rfl
    | some sum =>
        simp only [writeSums, overwrite]
        split
        · rfl
        · cases s.files g.sumCsv <;> simp [hne]
  · rfl

section

variable {s : State} (hs : Sound g s) {target : Text} (htarget : Foreign g target)

include hs htarget

theorem setSum_moves (hg : g.Separate) (calls : SumCalls) :
    Moves g target s (setSum g calls target s) :=
  (setSum_agreesOff calls target s).moves (apart_sums hg) hs htarget

theorem write_sound (node : Option Node) : Sound g (s.write target node) :=
  (write_agreesOff s target node).sound htarget.ne_log (htarget.ne_swap _) hs

omit hs in
theorem write_place_self (node : Option Node) :
    (s.write target node).place g target = { s.place g target with current := node } := by
  simp [State.place, (write_agreesOff s target node).revertScript htarget.ne_log,
    (htarget.ne_backupOf target).symm]

omit hs in
theorem write_place_of_ne {file : Text} (hne : file ≠ target) (node : Option Node) :
    (s.write target node).place g file = s.place g file :=
  (write_agreesOff s target node).place htarget.ne_log hne (htarget.ne_backupOf file).symm

/-- A covered file can be given any contents. -/
theorem write_moves {node : Option Node}
    (hsafe : node = s.files target ∨ (s.place g target).covered = true) :
    Moves g target s (s.write target node) := by
  refine ⟨write_sound hs htarget node, fun file _ hne => write_place_of_ne htarget hne node, ?_⟩
  rw [write_place_self htarget]
  exact .single (.write node) hsafe

variable (hg : g.Separate) (hlogOnly : g.logOnly = false)

include hg hlogOnly

/-- A file is filled and the command to remove it recorded. -/
theorem create_moves {blank : Text} (hblank : blank = [] ∨ blank = [' ']) (node : Node)
    (hsafe : s.files target = none ∨ (s.place g target).covered = true) :
    Moves g target s (revertLog g .succeed (g.rmCommand target ++ blank ++ ['\n'])
      (s.write target (some node))) := by
  have hadds := adds_rmCommand hg htarget hblank
  have hs' := write_sound hs htarget (some node)
  refine ⟨revertLog_sound hg hlogOnly hs' hadds, fun file hfile hne => ?_, ?_⟩
  · rw [revertLog_place hg hlogOnly hs' hadds hfile, filterMap_entryOf_rmCommand hg htarget hblank,
      if_neg hne.symm, write_place_of_ne htarget hne]
    rfl
  · rw [revertLog_place hg hlogOnly hs' hadds htarget,
      filterMap_entryOf_rmCommand hg htarget hblank, if_pos rfl, write_place_self htarget]
    exact .single (.create node) hsafe

/-- A copy is made and the command to move it back recorded, unless there is a copy already. -/
theorem backupFile_spec (hexists : s.exists target = true) (copy : Copied) :
    Sound g (backupFile g ⟨copy, .succeed⟩ target s).2 ∧
      (∀ file, Foreign g file → file ≠ target →
        (backupFile g ⟨copy, .succeed⟩ target s).2.place g file = s.place g file) ∧
      (backupFile g ⟨copy, .succeed⟩ target s).2.place g target =
        Journal.perform (.save (copy.leaves (s.files target))) (s.place g target) := by
  cases hback : s.files (g.backupOf target) with
  | some node =>
      have hsame : (backupFile g ⟨copy, .succeed⟩ target s).2 = s := by
        simp [backupFile, State.exists, hback]
      rw [hsame]
      refine ⟨hs, fun _ _ _ => rfl, ?_⟩
      simp [State.place, hback, Journal.perform]
  | none =>
      have hbackup : (backupFile g ⟨copy, .succeed⟩ target s).2 =
          revertLog g .succeed (g.mvCommand target)
            (s.write (g.backupOf target) (copy.leaves (s.files target))) := by
        have hmissing : s.exists (g.backupOf target) = false := by simp [State.exists, hback]
        simp [backupFile, hexists, hmissing]
      have hagrees := write_agreesOff s (g.backupOf target) (copy.leaves (s.files target))
      have hlog := (hg.log_ne_backupOf target).symm
      have hs' := hagrees.sound hlog (hg.swap_ne_backupOf target).symm hs
      have hadds := adds_mvCommand hg htarget
      rw [hbackup]
      refine ⟨revertLog_sound hg hlogOnly hs' hadds, fun file hfile hne => ?_, ?_⟩
      · have hother : g.backupOf file ≠ g.backupOf target := fun heq => hne (backupOf_inj.mp heq)
        rw [revertLog_place hg hlogOnly hs' hadds hfile,
          hagrees.place hlog (hfile.ne_backupOf target) hother]
        simp [entryOf_mvCommand hg htarget, hne.symm]
      · rw [revertLog_place hg hlogOnly hs' hadds htarget]
        simp [entryOf_mvCommand hg htarget, State.place, Journal.perform, hback,
          hagrees.revertScript hlog, htarget.ne_backupOf target]

theorem backupFile_moves (hexists : s.exists target = true) {copy : Copied}
    (hsafe : copy = .untouched ∨ copy = .complete ∨ (s.place g target).covered = true) :
    Moves g target s (backupFile g ⟨copy, .succeed⟩ target s).2 := by
  obtain ⟨hsound, hothers, hplace⟩ := backupFile_spec hs htarget hg hlogOnly hexists copy
  refine ⟨hsound, hothers, ?_⟩
  rw [hplace]
  refine .single _ ?_
  rcases hsafe with rfl | rfl | hcovered
  · exact Or.inl rfl
  · exact Or.inr (Or.inl rfl)
  · exact Or.inr (Or.inr hcovered)

/-- After a complete copy the file is covered. -/
theorem backupFile_covered (hexists : s.exists target = true) {copy : Copied}
    (hsafe : copy = .complete ∨ (s.place g target).covered = true) :
    ((backupFile g ⟨copy, .succeed⟩ target s).2.place g target).covered = true := by
  obtain ⟨-, -, hplace⟩ := backupFile_spec hs htarget hg hlogOnly hexists copy
  rw [hplace]
  rcases hsafe with rfl | hcovered
  · obtain ⟨node, hnode⟩ := Option.isSome_iff_exists.mp hexists
    rw [Copied.leaves, hnode]
    exact Journal.covered_save _ node
  · exact Journal.covered_perform hcovered _

end

/-- `B_backup_file` succeeds where there was a file and there is a copy of it now. -/
theorem backupFile_fst (calls : BackupCalls) (target : Text) (s : State) :
    (backupFile g calls target s).1 =
      (s.exists target && (backupFile g calls target s).2.exists (g.backupOf target)) := rfl

/-- What `B_open_plus` and the printing change is the swap file. -/
theorem openPlus_agreesOff (calls : OpenCalls) (file : Text) (s : State) :
    AgreesOff (swap file) s (openPlus g calls file s).2 := by
  intro other hne
  unfold openPlus
  repeat' split
  all_goals first | rfl | exact write_files_of_ne s hne _

theorem overwrite_eq (file content : Text) (s : State) :
    ∃ node, overwrite g file content s = s.write file (some node) := by
  unfold overwrite
  split
  · exact ⟨_, rfl⟩
  · exact ⟨_, rfl⟩

theorem overwrite_agreesOff (file content : Text) (s : State) :
    AgreesOff file s (overwrite g file content s) := by
  obtain ⟨node, hnode⟩ := overwrite_eq (g := g) file content s
  rw [hnode]
  exact write_agreesOff s file (some node)

theorem AgreesOff.trans {apart : Text} {s s' s'' : State} (h : AgreesOff apart s s')
    (h' : AgreesOff apart s' s'') : AgreesOff apart s s'' :=
  fun file hne => (h' file hne).trans (h file hne)

theorem AgreesOff.refl (apart : Text) (s : State) : AgreesOff apart s s :=
  fun _ _ => rfl

theorem printTo_agreesOff (opened : Opened) (file content : Text) (s : State) :
    AgreesOff (swap file) s (printTo g opened file content s) := by
  unfold printTo
  split
  · exact overwrite_agreesOff _ _ s
  · exact .refl _ s

theorem retain_agreesOff (calls : CloseCalls) (file : Text) (s : State) :
    AgreesOff (swap file) s (retain calls file s) := by
  intro other hne
  unfold retain
  split
  · exact write_files_of_ne s hne _
  · rfl

/-- `rename` puts some contents in the place of the file, or nothing happens. -/
theorem rename_cases (renames : Bool) (source target : Text) (s : State) :
    (rename renames source target s).2 = s ∨ ∃ node,
      (rename renames source target s).2 = (s.write source none).write target (some node) := by
  unfold rename
  cases s.files source with
  | none => exact Or.inl rfl
  | some node =>
      cases renames with
      | true => exact Or.inr ⟨node, rfl⟩
      | false => exact Or.inl rfl

/-- A file that is about to be written over is copied completely, and a new one is made by a copy
that is not cut short. -/
def CopyCalls.copies (calls : CopyCalls) (s : State) (target : Text) : Prop :=
  if s.exists target then calls.backup.copy = .complete else ∀ left, calls.copy ≠ .cut left

section

variable (hg : g.Separate) (hlogOnly : g.logOnly = false) {s : State} (hs : Sound g s)
  {target : Text} (htarget : Foreign g target)

include hg hlogOnly hs htarget

theorem closePlus_moves {calls : CloseCalls} (hlog : calls.backup.log = .succeed)
    (hsafe : calls.backup.copy = .complete ∨ (s.place g target).covered = true) :
    Moves g target s (closePlus g calls target s).2 := by
  have hsame : Moves g target s s := (AgreesOff.refl g.sumCsv s).moves (apart_sums hg) hs htarget
  have hbackup : calls.backup = ⟨calls.backup.copy, .succeed⟩ := by rw [← hlog]
  have hswap := apart_swap hg htarget
  unfold closePlus
  split
  · exact hsame
  next hexists =>
  rw [if_neg (by simp [hlogOnly])]
  split
  · exact hsame
  -- the swap file gets the attributes, the file is copied, and the swap file takes its place
  have hretain := retain_agreesOff calls target s
  have hs₁ := hretain.moves hswap hs htarget
  have hexists₁ : (retain calls target s).exists target = true := by
    simp only [Bool.or_eq_true, not_or, Bool.not_eq_eq_eq_not, Bool.not_true,
      Bool.not_eq_false] at hexists
    rw [State.exists, hretain _ (htarget.ne_swap _)]
    exact hexists.2
  have hsafe₁ : calls.backup.copy = .complete ∨
      ((retain calls target s).place g target).covered = true := by
    rwa [hretain.foreign_place hswap htarget]
  have hs₂ := backupFile_moves hs₁.sound htarget hg hlogOnly hexists₁
    (hsafe₁.elim (fun h => Or.inr (Or.inl h)) (fun h => Or.inr (Or.inr h)))
  have hcovered := backupFile_covered hs₁.sound htarget hg hlogOnly hexists₁ hsafe₁
  rw [← hbackup] at hs₂ hcovered
  have hs₃ : Moves g target (backupFile g calls.backup target (retain calls target s)).2
      (rename calls.renames (swap target) target
        (backupFile g calls.backup target (retain calls target s)).2).2 := by
    rcases rename_cases calls.renames (swap target) target
      (backupFile g calls.backup target (retain calls target s)).2 with hrename | ⟨node, hrename⟩
    · rw [hrename]
      exact (AgreesOff.refl g.sumCsv _).moves (apart_sums hg) hs₂.sound htarget
    · have hgone := write_agreesOff (backupFile g calls.backup target (retain calls target s)).2
        (swap target) none
      have hmoves := hgone.moves hswap hs₂.sound htarget
      rw [hrename]
      refine hmoves.trans (write_moves hmoves.sound htarget (Or.inr ?_))
      rwa [hgone.foreign_place hswap htarget]
  exact ((hs₁.trans hs₂).trans hs₃).trans (setSum_moves hs₃.sound htarget hg calls.sum)

theorem edit_moves {calls : OpenCalls × CloseCalls} (change : Text → Text)
    (hlog : calls.2.backup.log = .succeed)
    (hsafe : calls.2.backup.copy = .complete ∨ (s.place g target).covered = true) :
    Moves g target s (edit g calls target change s).2 := by
  have hopen := openPlus_agreesOff (g := g) calls.1 target s
  have hswap := apart_swap hg htarget
  unfold edit
  dsimp only
  split
  · have hprint := hopen.trans (printTo_agreesOff (g := g) (openPlus g calls.1 target s).1 target
      (change ((openPlus g calls.1 target s).1.original.getD [])) _)
    have hmoves := hprint.moves hswap hs htarget
    refine hmoves.trans (closePlus_moves hg hlogOnly hmoves.sound htarget hlog ?_)
    rwa [hprint.foreign_place hswap htarget]
  · exact hopen.moves hswap hs htarget

theorem deleteFile_moves {calls : DeleteCalls} (hlog : calls.backup.log = .succeed)
    (hsafe : calls.backup.copy = .untouched ∨ calls.backup.copy = .complete ∨
      (s.place g target).covered = true) :
    Moves g target s (deleteFile g calls target s).2 := by
  have hbackup : calls.backup = ⟨calls.backup.copy, .succeed⟩ := by rw [← hlog]
  have hcopied : (backupFile g calls.backup target s).1 = true →
      ((backupFile g calls.backup target s).2.place g target).covered = true := by
    intro h
    rw [backupFile_fst, Bool.and_eq_true] at h
    exact Bool.or_eq_true_iff.mpr (Or.inl h.2)
  have hmissing : s.exists target = false → (backupFile g calls.backup target s).2 = s := by
    intro h
    simp [backupFile, h]
  have hmoves : Moves g target s (backupFile g calls.backup target s).2 := by
    cases hexists : s.exists target with
    | true =>
        rw [hbackup]
        exact backupFile_moves hs htarget hg hlogOnly hexists hsafe
    | false =>
        rw [hmissing hexists]
        exact (AgreesOff.refl g.sumCsv s).moves (apart_sums hg) hs htarget
  unfold deleteFile
  rw [if_neg (by simp [hlogOnly])]
  split
  next s' heq =>
    rw [heq] at hcopied hmoves
    split
    · exact hmoves.trans (write_moves hmoves.sound htarget (Or.inr (hcopied rfl)))
    · exact hmoves
  next s' heq =>
    rw [heq] at hmoves
    exact hmoves

theorem createFile_moves {calls : CreateCalls} (hlog : calls.log = .succeed) :
    Moves g target s (createFile g calls target s).2 := by
  have hsame : Moves g target s s := (AgreesOff.refl g.sumCsv s).moves (apart_sums hg) hs htarget
  unfold createFile
  split
  · exact hsame
  next hmissing =>
  rw [if_neg (by simp [hlogOnly])]
  split
  · have hnone : s.files target = none := by
      simpa [htarget.ne_nil, State.exists] using hmissing
    rw [hlog]
    have hmoves := create_moves hs htarget hg hlogOnly (Or.inr (Eq.refl [' ']))
      { g.newNode [] with mode := 0o700 } (Or.inl hnone)
    rwa [List.append_assoc] at hmoves
  · exact hsame

theorem cp_moves {calls : CopyCalls} (source : Text)
    (hlog : calls.backup.log = .succeed ∧ calls.log = .succeed)
    (hcopies : calls.copies s target ∨ (s.place g target).covered = true) :
    Moves g target s (cp g calls source target s).2 := by
  have hcalls : calls.backup = ⟨calls.backup.copy, .succeed⟩ := by rw [← hlog.1]
  have hsame : Moves g target s s := (AgreesOff.refl g.sumCsv s).moves (apart_sums hg) hs htarget
  -- the target is free or covered when the copy begins, and a copy cut short leaves a covered one
  obtain ⟨s₁, hs₁, hmoves, hready, hcut⟩ :
      ∃ s₁, (if s.exists target then (backupFile g calls.backup target s).2 else s) = s₁ ∧
        Moves g target s s₁ ∧
        (s₁.files target = none ∨ (s₁.place g target).covered = true) ∧
        ((∀ left, calls.copy ≠ .cut left) ∨ (s₁.place g target).covered = true) := by
    cases hexists : s.exists target with
    | true =>
        have hsafe : calls.backup.copy = .complete ∨ (s.place g target).covered = true := by
          rwa [CopyCalls.copies, if_pos hexists] at hcopies
        have hmoves := backupFile_moves hs htarget hg hlogOnly hexists
          (hsafe.elim (fun h => Or.inr (Or.inl h)) (fun h => Or.inr (Or.inr h)))
        have hcovered := backupFile_covered hs htarget hg hlogOnly hexists hsafe
        rw [← hcalls] at hmoves hcovered
        exact ⟨_, if_pos rfl, hmoves, Or.inr hcovered, Or.inr hcovered⟩
    | false =>
        rw [CopyCalls.copies, if_neg (by simp [hexists])] at hcopies
        refine ⟨s, by simp, hsame, Or.inl ?_, hcopies⟩
        simpa [State.exists] using hexists
  have hdone : ∀ s₂, Moves g target s₁ s₂ → Moves g target s (setSum g calls.sum target s₂) :=
    fun s₂ h => (hmoves.trans h).trans (setSum_moves h.sound htarget hg calls.sum)
  unfold cp
  rw [hs₁]
  dsimp only
  split
  next node _ _ =>
    obtain ⟨node', hnode⟩ := overwrite_eq (g := g) target node.content s₁
    rw [hlog.2, hnode]
    have hcreate := create_moves hmoves.sound htarget hg hlogOnly (Or.inl rfl) node' hready
    rw [List.append_nil] at hcreate
    exact hdone _ hcreate
  next left _ hcopied =>
    refine hdone _ (write_moves hmoves.sound htarget (Or.inr ?_))
    exact hcut.resolve_left fun h => h left hcopied
  · exact hdone _ ((AgreesOff.refl g.sumCsv s₁).moves (apart_sums hg) hmoves.sound htarget)

end

/-! ## Runs -/

/-- The commands of the operation all get into the script. -/
def Operation.recorded : Operation → Prop
  | edit calls _ _ => calls.2.backup.log = .succeed
  | delete calls _ => calls.backup.log = .succeed
  | create calls _ => calls.log = .succeed
  | cp calls _ _ => calls.backup.log = .succeed ∧ calls.log = .succeed
  | place calls _ _ => calls.backup.log = .succeed ∧ calls.log = .succeed

/-- The copies that an operation needs are complete. A deletion only needs one that is not cut
short, because without a copy nothing is deleted. -/
def Operation.copies (s : State) : Operation → Prop
  | edit calls _ _ => calls.2.backup.copy = .complete
  | delete calls _ => calls.backup.copy = .untouched ∨ calls.backup.copy = .complete
  | create _ _ => True
  | cp calls _ target => calls.copies s target
  | place calls _ target => calls.copies s target

/-- A call that keeps the record. The copies do not matter for a file of which Bastille has a copy
already, or that it created. -/
structure Keeps (g : Globals) (s : State) (operation : Operation) : Prop where
  foreign : Foreign g operation.target
  recorded : operation.recorded
  copies : operation.copies s ∨ (s.place g operation.target).covered = true

/-- Before the first run: there is no script and there are no copies. -/
structure Fresh (g : Globals) (s : State) : Prop where
  no_script : s.files g.revertActions = none
  no_swap : s.files (swap g.revertActions) = none
  no_copies : ∀ file, s.files (g.backupOf file) = none

/-- Each function does to the file it is about what some events of the journal do that lose
nothing, and it does nothing to the others. -/
theorem perform_moves (hg : g.Separate) (hlogOnly : g.logOnly = false) {s : State} (hs : Sound g s)
    {operation : Operation} (h : Keeps g s operation) :
    Moves g operation.target s (perform g operation s) := by
  obtain ⟨hforeign, hrecorded, hcopies⟩ := h
  cases operation with
  | edit calls file change => exact edit_moves hg hlogOnly hs hforeign change hrecorded hcopies
  | delete calls file =>
      refine deleteFile_moves hg hlogOnly hs hforeign hrecorded ?_
      rwa [← or_assoc]
  | create calls file => exact createFile_moves hg hlogOnly hs hforeign hrecorded
  | cp calls source target => exact cp_moves hg hlogOnly hs hforeign source hrecorded hcopies
  | place calls source target => exact cp_moves hg hlogOnly hs hforeign _ hrecorded hcopies

theorem Moves.reaches_all {target : Text} {s s' : State} (h : Moves g target s s') {file : Text}
    (hfile : Foreign g file) : Journal.Reaches (s.place g file) (s'.place g file) := by
  by_cases heq : file = target
  · exact heq ▸ h.reaches
  · rw [h.others file hfile heq]
    exact .refl _

/-- Over a run, the script stays in order and every place goes on by events that lose nothing. -/
theorem after_reaches (hg : g.Separate) (hlogOnly : g.logOnly = false) {s : State} (hs : Sound g s)
    {operations : List Operation} (h : EachStep (perform g) (Keeps g) s operations) :
    Sound g (after (perform g) s operations) ∧ ∀ file, Foreign g file →
      Journal.Reaches (s.place g file) ((after (perform g) s operations).place g file) := by
  refine h.invariant (I := fun s' => Sound g s' ∧ ∀ file, Foreign g file →
    Journal.Reaches (s.place g file) (s'.place g file)) (fun hI hkeeps => ?_)
    ⟨hs, fun file _ => .refl _⟩
  have hmoves := perform_moves hg hlogOnly hI.1 hkeeps
  exact ⟨hmoves.sound, fun file hfile => (hI.2 file hfile).trans (hmoves.reaches_all hfile)⟩

theorem Fresh.sound {s : State} (h : Fresh g s) : Sound g s := by
  have hscript : s.revertScript g = [] := by simp [State.revertScript, h.no_script]
  exact ⟨h.no_swap, by simp [hscript], by simp [hscript]⟩

theorem Fresh.place {s : State} (h : Fresh g s) (file : Text) :
    s.place g file = .fresh (s.files file) := by
  have hscript : s.revertScript g = [] := by simp [State.revertScript, h.no_script]
  simp [State.place, Journal.Place.fresh, h.no_copies file, hscript]

/-- Bastille with its files in one directory. -/
def smallGlobals : Globals where
  backup := "/l/backup".toList
  share := "/share".toList
  revertActions := "/l/revert".toList
  sumCsv := "/l/sum.csv".toList
  mv := "/bin/mv".toList
  rm := "/bin/rm".toList
  logOnly := false
  fileMode := 0o644
  uid := 0
  gid := 0

theorem smallGlobals_separate : smallGlobals.Separate := by
  constructor <;> decide

/-- A system with one file. -/
def oneFile (file : Text) (node : Node) : State where
  files := fun other => if other = file then some node else none
  sums := ∅

theorem oneFile_fresh {file : Text} {node : Node} (hfile : Foreign g file) :
    Fresh g (oneFile file node) where
  no_script := if_neg hfile.ne_log.symm
  no_swap := if_neg (hfile.ne_swap _).symm
  no_copies other := if_neg (hfile.ne_backupOf other).symm

/-- Every call of an edit succeeds. -/
def editCalls : OpenCalls × CloseCalls :=
  (⟨true, true⟩, ⟨true, true, true, ⟨.complete, .succeed⟩, true, ⟨none, true⟩⟩)

theorem foreign_small : Foreign smallGlobals "/etc/a".toList := by
  constructor <;> decide

/-- After any run that keeps the record, `bastille -r` gives back every file of the system, if each
command of the script succeeds. -/
theorem revert_restores (hg : g.Separate) (hlogOnly : g.logOnly = false) {commands : Commands}
    (hcommands : commands.Succeed g) {s : State} (hs : Fresh g s) {operations : List Operation}
    (h : EachStep (perform g) (Keeps g) s operations) {file : Text} (hfile : Foreign g file) :
    (revert commands g (after (perform g) s operations)).files file = s.files file := by
  obtain ⟨hsound, hreaches⟩ := after_reaches hg hlogOnly hs.sound h
  have hfresh : Journal.Recovers (s.files file) (s.place g file) := by
    rw [hs.place]
    exact Journal.recovers_fresh _
  rw [revert_files hcommands hsound hfile]
  exact ((hreaches file hfile).recovers hfresh).undone

/-- An edited and then deleted file comes back as it was. -/
theorem revert_restores_deleted :
    let s := oneFile "/etc/a".toList ⟨['x', '\n'], 0o600, 3, 3⟩
    let operations := [Operation.edit editCalls "/etc/a".toList fun t => 'y' :: t,
      .delete ⟨⟨.complete, .succeed⟩, true⟩ "/etc/a".toList]
    (after (perform smallGlobals) s operations).files "/etc/a".toList = none ∧
      (revert (.plain smallGlobals) smallGlobals (after (perform smallGlobals) s operations)).files
          "/etc/a".toList =
        some ⟨['x', '\n'], 0o600, 3, 3⟩ := by
  refine ⟨by decide +kernel, ?_⟩
  refine revert_restores smallGlobals_separate rfl (Commands.plain_succeed smallGlobals)
    (oneFile_fresh foreign_small) ?_ foreign_small
  exact ⟨⟨foreign_small, rfl, Or.inl rfl⟩, ⟨foreign_small, rfl, Or.inl (Or.inr rfl)⟩, trivial⟩

/-- After each operation of a run, a file that was there at the start is in its place as it was or
has its copy in the backup directory. -/
theorem original_or_copy (hg : g.Separate) (hlogOnly : g.logOnly = false) {s : State}
    (hs : Fresh g s) {operations : List Operation}
    (h : EachStep (perform g) (Keeps g) s operations) {file : Text} (hfile : Foreign g file)
    {node : Node} (hnode : s.files file = some node) :
    (after (perform g) s operations).files file = some node ∨
      (after (perform g) s operations).files (g.backupOf file) = some node := by
  obtain ⟨-, hreaches⟩ := after_reaches hg hlogOnly hs.sound h
  have hfresh : Journal.Kept node (s.place g file) := by
    rw [hs.place, hnode]
    exact Journal.kept_fresh node
  rcases (hreaches file hfile).kept hfresh with himage | ⟨hcurrent, -⟩
  · exact Or.inr himage
  · exact Or.inl hcurrent

/-- The contents of an edited file are in the backup directory. -/
theorem original_or_copy_edited :
    let s := oneFile "/etc/a".toList ⟨['x', '\n'], 0o600, 3, 3⟩
    let operations := [Operation.edit editCalls "/etc/a".toList fun t => 'y' :: t]
    (after (perform smallGlobals) s operations).files "/etc/a".toList =
        some ⟨['y', 'x', '\n'], 0o600, 3, 3⟩ ∧
      ((after (perform smallGlobals) s operations).files "/etc/a".toList =
          some ⟨['x', '\n'], 0o600, 3, 3⟩ ∨
        (after (perform smallGlobals) s operations).files
          (smallGlobals.backupOf "/etc/a".toList) = some ⟨['x', '\n'], 0o600, 3, 3⟩) := by
  refine ⟨by decide +kernel, ?_⟩
  refine original_or_copy smallGlobals_separate rfl (oneFile_fresh foreign_small) ?_ foreign_small
    (by decide)
  exact ⟨⟨foreign_small, rfl, Or.inl rfl⟩, trivial⟩

end MetaSecurity.Bastille
