import MetaSecurity.Tripwire.Install

/-!
# What later runs of twinstall.sh leave of earlier ones

Without `CLOBBER`, keys stay, and a signed configuration is moved to a backup before the next one is
signed. For the policy the script looks at `POLICY_FILE`, which it does not set.
-/

namespace MetaSecurity.Tripwire

open Library Shell

/-! ## Steps -/

section

variable {settings : Settings} {files : Files} {path : Text}

theorem state_ending (status : Nat) (files : Files) : (ending status files).state = files := by
  unfold ending
  split
  · rfl
  · rfl

theorem generate_other {key : Text} (hne : path ≠ key) (call : Call) :
    (generate settings key call files).state path = files path := by
  unfold generate
  dsimp only
  split
  · split
    · exact Function.update_of_ne hne ..
    · rw [state_ending, Function.update_of_ne hne, Function.update_of_ne hne]
  · split
    · rfl
    · rw [state_ending, Function.update_of_ne hne]

/-- A key that is there is not made again. -/
theorem generate_there (hclobber : settings.clobber = false) {key : Text}
    (hthere : (files key).isSome = true) (call : Call) :
    generate settings key call files = .done files := by
  simp [generate, isFile, hclobber, hthere]

theorem backUp_other {file pid : Text} (hfile : path ≠ file) (hbackup : path ≠ backupOf file pid)
    (moves : Bool) : (backUp settings file pid moves files).state path = files path := by
  unfold backUp
  split
  · split
    · show Function.update (Function.update files (backupOf file pid) (files file)) file none path =
        files path
      rw [Function.update_of_ne hfile, Function.update_of_ne hbackup]
    · rfl
  · rfl

/-- No file has the empty path. -/
theorem backUp_nil (pid : Text) (moves : Bool) : backUp settings [] pid moves = Outcome.done := by
  funext files
  simp [backUp, nonEmpty]

/-- What a file that is moved leaves. -/
theorem backUp_self (settings : Settings) (file pid : Text) (moves : Bool) (files : Files) :
    (backUp settings file pid moves files).state file = none ∨
      (backUp settings file pid moves files).state = files := by
  unfold backUp
  split
  · split
    · exact Or.inl (Function.update_self ..)
    · exact Or.inr rfl
  · exact Or.inr rfl

theorem sign_other {file : Text} (hne : path ≠ file) (call : Call) :
    (sign file call files).state path = files path := by
  rw [sign, state_ending, Function.update_of_ne hne]

/-- What is moved out of the way is in the backup, and it stays where it is if `mv` fails. -/
theorem leaves_backUp (hclobber : settings.clobber = false) {file : Text} (hfile : file ≠ [])
    (pid : Text) (moves : Bool) {content : Text} (hcontent : content ≠ []) :
    Leaves (fun files => files file = some content) (backUp settings file pid moves)
      (fun files => files (backupOf file pid) = some content)
      fun files => files file = some content := by
  intro files hthere
  have hnonEmpty : nonEmpty files file = true := by simp [nonEmpty, hfile, hthere, hcontent]
  unfold backUp
  rw [hclobber, hnonEmpty]
  cases moves with
  | true =>
      show Function.update (Function.update files (backupOf file pid) (files file)) file none
        (backupOf file pid) = some content
      rw [Function.update_of_ne (backupOf_ne_self file pid), Function.update_self]
      exact hthere
  | false => exact hthere

end

/-! ## Runs -/

/-- The policy is not kept where the keys and the configuration are. -/
structure Elsewhere (path : Text) : Prop where
  key : ¬ IsKey path
  config : path ≠ configFile
  backup : ∀ pid, path ≠ backupOf configFile pid

/-- A run as the script is meant to be called: `POLICY_FILE` is not in its environment. -/
structure Usual (run : Run) : Prop where
  policyFile : run.policyFile = []
  polfile : Elsewhere run.polfile

section

variable {settings : Settings} {run : Run}

/-- A run changes nothing but the keys, the configuration, its own backup and the policy. -/
theorem Usual.keeps (h : Usual run) {path : Text} (hkey : ¬ IsKey path)
    (hconfig : path ≠ configFile) (hbackup : path ≠ backupOf configFile run.pid)
    (hpolicy : path ≠ run.polfile) :
    Keeps (fun files : Files => files path) (install settings run) := by
  have hsite : path ≠ siteKey := fun heq => hkey (Or.inl heq)
  have hlocal : path ≠ localKey run.hostName := fun heq => hkey (Or.inr ⟨_, heq⟩)
  refine Keeps.inOrder fun command hcommand files => ?_
  simp only [steps, h.policyFile, backUp_nil, List.mem_cons, List.not_mem_nil, or_false] at hcommand
  rcases hcommand with rfl | rfl | rfl | rfl | rfl | rfl | rfl
  · exact generate_other hsite run.siteKey
  · exact generate_other hlocal run.localKey
  · exact backUp_other hconfig hbackup run.movesConfig
  · exact sign_other hconfig run.config
  · rfl
  · exact sign_other hpolicy run.policy
  · exact congrFun (state_ending run.initDatabase files) path

/-- A key that is there stays. -/
theorem Usual.key (h : Usual run) (hclobber : settings.clobber = false) {path : Text}
    (hkey : IsKey path) {key : Text} {files : Files} (hthere : files path = some key) :
    (install settings run files).state path = some key := by
  refine leaves_iff_state.mp (Leaves.inOrder (P := fun files => files path = some key)
    fun command hcommand => leaves_iff_state.mpr fun files hthere => ?_) files hthere
  have hconfig : path ≠ configFile := fun heq => not_isKey_configFile (heq ▸ hkey)
  have hbackup : path ≠ backupOf configFile run.pid := fun heq =>
    not_isKey_backupOf configFile run.pid (heq ▸ hkey)
  have hpolicy : path ≠ run.polfile := fun heq => h.polfile.key (heq ▸ hkey)
  have hgenerate : ∀ other call,
      (generate settings other call files).state path = some key := by
    intro other call
    by_cases heq : path = other
    · rw [generate_there hclobber (by rw [← heq, hthere]; rfl)]
      exact hthere
    · rw [generate_other heq]
      exact hthere
  simp only [steps, h.policyFile, backUp_nil, List.mem_cons, List.not_mem_nil, or_false] at hcommand
  rcases hcommand with rfl | rfl | rfl | rfl | rfl | rfl | rfl
  · exact hgenerate siteKey run.siteKey
  · exact hgenerate (localKey run.hostName) run.localKey
  · exact (backUp_other hconfig hbackup run.movesConfig).trans hthere
  · exact (sign_other hconfig run.config).trans hthere
  · exact hthere
  · exact (sign_other hpolicy run.policy).trans hthere
  · exact (congrFun (state_ending run.initDatabase files) path).trans hthere

/-- A step that does not write a file leaves it as it is, also when it stops. -/
theorem leaves_of_same {command : Command Files} {path content : Text} {R : Files → Prop}
    (hsame : ∀ files, (command files).state path = files path)
    (hR : ∀ files : Files, files path = some content → R files) :
    Leaves (fun files => files path = some content) command (fun files => files path = some content)
      R :=
  (leaves_iff_state.mpr fun files hthere => (hsame files).trans hthere).mono hR

/-- A configuration that is there stays where it is, or it is in the backup of the run. -/
theorem Usual.config (h : Usual run) (hclobber : settings.clobber = false) {content : Text}
    (hcontent : content ≠ []) {files : Files} (hthere : files configFile = some content) :
    (install settings run files).state configFile = some content ∨
      (install settings run files).state (backupOf configFile run.pid) = some content := by
  let kept : Files → Prop := fun files =>
    files configFile = some content ∨ files (backupOf configFile run.pid) = some content
  have hkey : ∀ {key}, IsKey key → configFile ≠ key := fun hkey heq =>
    not_isKey_configFile (heq ▸ hkey)
  have hmoved := backupOf_ne_configFile configFile run.pid
  have hpolicy : backupOf configFile run.pid ≠ run.polfile := fun heq =>
    h.polfile.backup run.pid heq.symm
  have hleaves : Leaves (fun files => files configFile = some content) (install settings run)
      (fun files => files (backupOf configFile run.pid) = some content) kept := by
    unfold install steps
    rw [h.policyFile, backUp_nil]
    -- until it is moved the configuration is there, and then the backup is
    refine Leaves.cons (leaves_of_same (fun _ => generate_other (hkey (Or.inl rfl)) _)
      fun _ => Or.inl) ?_
    refine Leaves.cons (leaves_of_same (fun _ => generate_other (hkey (Or.inr ⟨_, rfl⟩)) _)
      fun _ => Or.inl) ?_
    refine Leaves.cons ((leaves_backUp hclobber (by decide) run.pid run.movesConfig hcontent).mono
      fun _ => Or.inl) ?_
    refine Leaves.cons (leaves_of_same (fun _ => sign_other hmoved _) fun _ => Or.inr) ?_
    refine Leaves.cons (leaves_of_same (fun _ => rfl) fun _ => Or.inr) ?_
    refine Leaves.cons (leaves_of_same (fun _ => sign_other hpolicy _) fun _ => Or.inr) ?_
    refine Leaves.cons (leaves_of_same (fun files => congrFun (state_ending _ files) _)
      fun _ => Or.inr) ?_
    exact Leaves.nil
  have hstate := hleaves files hthere
  cases hrun : install settings run files with
  | done files' =>
      rw [hrun] at hstate
      exact Or.inr hstate
  | stopped files' =>
      rw [hrun] at hstate
      exact hstate

/-- The configuration is there or in the backup of one of some runs. -/
def Retained (content : Text) (pids : List Text) (files : Files) : Prop :=
  files configFile = some content ∨
    ∃ pid ∈ pids, files (backupOf configFile pid) = some content

theorem Retained.install {content : Text} {pids : List Text} {files : Files}
    (hretained : Retained content pids files) (h : Usual run) (hclobber : settings.clobber = false)
    (hcontent : content ≠ []) (hpid : run.pid ∉ pids) :
    Retained content (run.pid :: pids) (Tripwire.install settings run files).state := by
  rcases hretained with hthere | ⟨pid, hmem, hbackup⟩
  · rcases h.config hclobber hcontent hthere with hconfig | hmoved
    · exact Or.inl hconfig
    · exact Or.inr ⟨run.pid, List.mem_cons_self, hmoved⟩
  · have hother : backupOf configFile pid ≠ backupOf configFile run.pid := fun heq =>
      hpid (backupOf_pid_injective configFile heq ▸ hmem)
    have hsame : Keeps (fun files : Files => files (backupOf configFile pid))
        (Tripwire.install settings run) :=
      h.keeps (not_isKey_backupOf configFile pid) (backupOf_ne_configFile configFile pid) hother
        fun heq => h.polfile.backup pid heq.symm
    exact Or.inr ⟨pid, List.mem_cons_of_mem _ hmem, (hsame files).trans hbackup⟩

end

section

variable {settings : Settings} {runs : List Run} {files : Files}

theorem key_afterRuns (hclobber : settings.clobber = false) (husual : ∀ run ∈ runs, Usual run)
    {path key : Text} (hkey : IsKey path) (hthere : files path = some key) :
    afterRuns (runs.map (install settings)) files path = some key := by
  induction runs generalizing files with
  | nil => exact hthere
  | cons run runs ih =>
      exact ih (fun other hother => husual other (List.mem_cons_of_mem _ hother))
        ((husual run List.mem_cons_self).key hclobber hkey hthere)

theorem retained_afterRuns (hclobber : settings.clobber = false)
    (husual : ∀ run ∈ runs, Usual run) {content : Text} (hcontent : content ≠ [])
    {pids : List Text} (hdistinct : (runs.map Run.pid).Nodup)
    (hnew : ∀ run ∈ runs, run.pid ∉ pids) (hretained : Retained content pids files) :
    Retained content ((runs.map Run.pid).reverse ++ pids)
      (afterRuns (runs.map (install settings)) files) := by
  induction runs generalizing files pids with
  | nil => exact hretained
  | cons run runs ih =>
      obtain ⟨hhead, htail⟩ := List.nodup_cons.mp hdistinct
      have hnext := hretained.install (husual run List.mem_cons_self) hclobber hcontent
        (hnew run List.mem_cons_self)
      have hlater := ih (fun other hother => husual other (List.mem_cons_of_mem _ hother)) htail
        (fun other hother => by
          rw [List.mem_cons, not_or]
          exact ⟨fun heq => hhead (heq ▸ List.mem_map_of_mem hother),
            hnew other (List.mem_cons_of_mem _ hother)⟩) hnext
      rw [List.map_cons, List.reverse_cons, List.append_assoc]
      exact hlater

end

/-- Over any runs of the script as it is installed, whichever of their commands fail: a key that was
there after some of them stays the same, and a configuration that was there after some of them is
there after all of them or in the backup of a later one, if no two runs have the same process id. -/
theorem keys_and_configs_kept {earlier later : List Run}
    (husual : ∀ run ∈ earlier ++ later, Usual run)
    (hdistinct : ((earlier ++ later).map Run.pid).Nodup) (files : Files) :
    let files₁ := afterRuns (earlier.map (install Settings.installed)) files
    let files₂ := afterRuns ((earlier ++ later).map (install Settings.installed)) files
    (∀ path key, IsKey path → files₁ path = some key → files₂ path = some key) ∧
      ∀ content, content ≠ [] → files₁ configFile = some content →
        Retained content (later.map Run.pid) files₂ := by
  intro files₁ files₂
  have hlater : files₂ = afterRuns (later.map (install Settings.installed)) files₁ := by
    simp only [files₂, files₁, afterRuns, List.map_append, List.foldl_append]
  have husual' : ∀ run ∈ later, Usual run := fun run hrun =>
    husual run (List.mem_append_right _ hrun)
  have hdistinct' : (later.map Run.pid).Nodup := by
    rw [List.map_append] at hdistinct
    exact (List.nodup_append.mp hdistinct).2.1
  rw [hlater]
  refine ⟨fun path key hkey hthere => key_afterRuns rfl husual' hkey hthere,
    fun content hcontent hthere => ?_⟩
  have hretained : Retained content ((later.map Run.pid).reverse ++ [])
      (afterRuns (later.map (install Settings.installed)) files₁) :=
    retained_afterRuns (show Settings.installed.clobber = false from rfl) husual' hcontent
      hdistinct' (fun _ _ => List.not_mem_nil) (Or.inl hthere)
  rcases hretained with hconfig | ⟨pid, hmem, hbackup⟩
  · exact Or.inl hconfig
  · exact Or.inr ⟨pid, by simpa using hmem, hbackup⟩

/-! ## The policy -/

section

variable {settings : Settings} {run : Run} {policy : Text}

/-- With `POLICY_FILE` the policy goes the way of the configuration. -/
theorem leaves_policy (hclobber : settings.clobber = false) (helse : Elsewhere run.polfile)
    (hpath : run.polfile ≠ []) (hpolicy : policy ≠ []) (hfile : run.policyFile = run.polfile) :
    Leaves (fun files => files run.polfile = some policy) (install settings run)
      (fun files => files (backupOf run.polfile run.pid) = some policy) fun _ => True := by
  have hkey : ∀ {key}, IsKey key → run.polfile ≠ key := fun hkey heq => helse.key (heq ▸ hkey)
  have hmoved := backupOf_ne_self run.polfile run.pid
  unfold install steps
  rw [hfile]
  refine Leaves.cons (leaves_of_same (fun _ => generate_other (hkey (Or.inl rfl)) _)
    fun _ _ => trivial) ?_
  refine Leaves.cons (leaves_of_same (fun _ => generate_other (hkey (Or.inr ⟨_, rfl⟩)) _)
    fun _ _ => trivial) ?_
  refine Leaves.cons (leaves_of_same
    (fun _ => backUp_other helse.config (helse.backup run.pid) run.movesConfig)
    fun _ _ => trivial) ?_
  refine Leaves.cons (leaves_of_same (fun _ => sign_other helse.config _) fun _ _ => trivial) ?_
  refine Leaves.cons ((leaves_backUp hclobber hpath run.pid run.movesPolicy hpolicy).mono
    fun _ _ => trivial) ?_
  refine Leaves.cons (leaves_of_same (fun _ => sign_other hmoved _) fun _ _ => trivial) ?_
  refine Leaves.cons (leaves_of_same (fun files => congrFun (state_ending _ files) _)
    fun _ _ => trivial) ?_
  exact Leaves.nil

/-- With another `POLICY_FILE` the backup of the policy is not written. -/
theorem leaves_no_policy (helse : Elsewhere run.polfile) (hfile : run.policyFile ≠ run.polfile) :
    Leaves (fun files => files (backupOf run.polfile run.pid) ≠ some policy)
      (install settings run) (fun files => files (backupOf run.polfile run.pid) ≠ some policy)
      fun files => files (backupOf run.polfile run.pid) ≠ some policy := by
  have hkey : ∀ {key}, IsKey key → backupOf run.polfile run.pid ≠ key := fun hkey heq =>
    not_isKey_backupOf run.polfile run.pid (heq ▸ hkey)
  have hconfig := backupOf_ne_configFile run.polfile run.pid
  have hmoved : backupOf run.polfile run.pid ≠ backupOf configFile run.pid := fun heq =>
    helse.config (backupOf_file_injective run.pid heq)
  have hother : backupOf run.polfile run.pid ≠ backupOf run.policyFile run.pid := fun heq =>
    hfile (backupOf_file_injective run.pid heq).symm
  refine Leaves.inOrder fun command hcommand => leaves_iff_state.mpr fun files hnew => ?_
  simp only [steps, List.mem_cons, List.not_mem_nil, or_false] at hcommand
  rcases hcommand with rfl | rfl | rfl | rfl | rfl | rfl | rfl
  · rwa [generate_other (hkey (Or.inl rfl))]
  · rwa [generate_other (hkey (Or.inr ⟨_, rfl⟩))]
  · rwa [backUp_other hconfig hmoved]
  · rwa [sign_other hconfig]
  · by_cases hself : backupOf run.polfile run.pid = run.policyFile
    · rcases backUp_self settings run.policyFile run.pid run.movesPolicy files with hnone | hsame
      · rw [hself, hnone]
        exact (Option.some_ne_none policy).symm
      · rw [hsame]
        exact hnew
    · rwa [backUp_other hself hother]
  · rwa [sign_other (backupOf_ne_self run.polfile run.pid)]
  · rwa [state_ending]

end

/-- A run that succeeds has moved the policy to a backup, as the script says that it does without
`CLOBBER`, exactly if its environment has the place of the policy in `POLICY_FILE`. -/
theorem policy_backed_up_iff {settings : Settings} (hclobber : settings.clobber = false) {run : Run}
    (helse : Elsewhere run.polfile) (hpath : run.polfile ≠ []) {files files' : Files}
    (hdone : install settings run files = .done files') {policy : Text} (hpolicy : policy ≠ [])
    (hthere : files run.polfile = some policy)
    (hnew : files (backupOf run.polfile run.pid) ≠ some policy) :
    files' (backupOf run.polfile run.pid) = some policy ↔ run.policyFile = run.polfile := by
  constructor
  · intro hbackup
    by_contra hfile
    have hleaves : Leaves (fun files => files (backupOf run.polfile run.pid) ≠ some policy)
        (install settings run) _ _ := leaves_no_policy helse hfile
    have hleft := hleaves files hnew
    rw [hdone] at hleft
    exact hleft hbackup
  · intro hfile
    have hleft := leaves_policy hclobber helse hpath hpolicy hfile files hthere
    rw [hdone] at hleft
    exact hleft

/-- Where the configuration says that the policy is. -/
def usualPolfile : Text := inConfPath "tw.pol".toList

theorem elsewhere_usualPolfile : Elsewhere usualPolfile := by
  have hlast : usualPolfile.getLast? = some 'l' := last_inConfPath (by decide)
  refine ⟨fun h => ?_, fun h => ?_, fun pid h => ?_⟩
  · rw [last_of_isKey h] at hlast
    exact absurd hlast (by decide)
  · rw [h, last_configFile] at hlast
    exact absurd hlast (by decide)
  · rw [h, last_backupOf] at hlast
    exact absurd hlast (by decide)

/-- A run that signs a configuration and a policy, or one that fails to sign the configuration. -/
def usualRun (pid : Text) (config : Call) : Run where
  hostName := "h".toList
  pid := pid
  policyFile := []
  polfile := usualPolfile
  siteKey := ⟨0, some "s".toList⟩
  localKey := ⟨0, some "l".toList⟩
  config := config
  policy := ⟨0, some "p".toList⟩
  movesConfig := true
  movesPolicy := true
  initDatabase := 0

/-- The second run fails and leaves no configuration, and the first one is in its backup. -/
theorem keys_and_configs_kept_failing :
    let first := usualRun ['1'] ⟨0, some ['c']⟩
    let second := usualRun ['2'] ⟨1, none⟩
    let files := afterRuns ([first, second].map (install Settings.installed)) fun _ => none
    files siteKey = some "s".toList ∧ Retained ['c'] [['2']] files := by
  intro first second files
  have hstart : afterRuns ([first].map (install Settings.installed)) (fun _ => none) siteKey =
      some "s".toList := by decide
  have hconfig : afterRuns ([first].map (install Settings.installed)) (fun _ => none) configFile =
      some ['c'] := by decide
  have husual : ∀ run ∈ [first] ++ [second], Usual run := by
    intro run hrun
    rcases List.mem_append.mp hrun with hrun | hrun
    · rw [List.mem_singleton.mp hrun]
      exact ⟨rfl, elsewhere_usualPolfile⟩
    · rw [List.mem_singleton.mp hrun]
      exact ⟨rfl, elsewhere_usualPolfile⟩
  obtain ⟨hkeys, hconfigs⟩ := keys_and_configs_kept husual (by decide) fun _ => none
  exact ⟨hkeys siteKey _ (Or.inl rfl) hstart, hconfigs ['c'] (by decide) hconfig⟩

/-- The second of two runs that succeed: the policy of the first one is not in its backup. -/
theorem policy_backed_up_iff_unset :
    let files := (install Settings.installed (usualRun ['1'] ⟨0, some ['c']⟩) fun _ => none).state
    let files' := (install Settings.installed (usualRun ['2'] ⟨0, some ['d']⟩) files).state
    files usualPolfile = some "p".toList ∧
      files' (backupOf usualPolfile ['2']) ≠ some "p".toList := by
  intro files files'
  have hthere : files usualPolfile = some "p".toList := by decide
  refine ⟨hthere, fun hbackup => ?_⟩
  have hsucceeds : install Settings.installed (usualRun ['2'] ⟨0, some ['d']⟩) files =
      .done files' := rfl
  have hfile := (policy_backed_up_iff rfl elsewhere_usualPolfile (by decide) hsucceeds
    (by decide) hthere (by decide)).mp hbackup
  exact absurd hfile (by decide)

end MetaSecurity.Tripwire
