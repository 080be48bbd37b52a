import MetaSecurity.Services.Scripts

/-!
# Daemons that are found by their executable

The scripts of samhain and of parsec never start a second daemon: `start-stop-daemon` finds the
first one even when that has been told to end. For the same reason a `restart` that comes too early
starts nothing. Then samhain's script fails, and parsec's script says nothing.
-/

namespace MetaSecurity.Services

open Library Shell Supervision Traces

/-! ## `start-stop-daemon` without a pid file -/

section

variable {tools : Tools} {o : Options} {s : State}

/-- `--stop` leaves the processes there. -/
theorem map_pid_stop : (tools.stop o s).2.processes.map Process.pid =
    s.processes.map Process.pid := by
  rw [tools.stop_processes, map_pid_tell]

theorem map_pid_instances_stop :
    (instances o.isInstance (tools.stop o s).2.processes).map Process.pid =
      (instances o.isInstance s.processes).map Process.pid := by
  rw [tools.stop_processes, instances_tell, map_pid_tell]

/-- After `--stop` no instance is active if all active ones were found. -/
theorem active_stop_eq_nil
    (h : ∀ p ∈ active o.isInstance s.processes, p.pid ∈ tools.finds o s) :
    active o.isInstance (tools.stop o s).2.processes = [] := by
  refine List.eq_nil_iff_forall_not_mem.mpr fun p hp => ?_
  rw [tools.stop_processes] at hp
  obtain ⟨hactive, hselects⟩ := (mem_active_tell ..).mp hp
  have hfound : (tools.finds o s).contains p.pid = true := List.contains_iff_mem.mpr (h p hactive)
  rw [hfound] at hselects
  exact absurd hselects Bool.noConfusion

variable (hpidFile : o.pidFile = false)

include hpidFile

/-- Any instance is found, also one that has been told to end. -/
theorem finds_eq_nil_iff : tools.finds o s = [] ↔ instances o.isInstance s.processes = [] := by
  rw [tools.finds_of_exec hpidFile, List.map_eq_nil_iff]

theorem active_stop : active o.isInstance (tools.stop o s).2.processes = [] := by
  refine active_stop_eq_nil fun p hp => ?_
  obtain ⟨hthere, hinstance, -⟩ := (mem_active ..).mp hp
  rw [tools.finds_of_exec hpidFile]
  exact List.mem_map_of_mem ((mem_instances ..).mpr ⟨hthere, hinstance⟩)

/-- What `--stop`, the end of some processes and `--start` come to: a daemon is started if no
instance remains, and otherwise nothing happens and none is active. -/
theorem start_after_stop (tools : Tools) (huser : o.user = none) (ended : List Nat)
    (launched : Launch) (s₁ : State)
    (hs₁ : s₁.processes = Supervision.leave ended (tools.stop o s).2.processes) :
    let gone := ∀ p ∈ instances o.isInstance s.processes, p.pid ∈ ended
    let r := tools.start o launched s₁
    (¬ gone → r.1 = o.idleStatus ∧ active o.isInstance r.2.processes = []) ∧
      (gone → r.1 = (if o.background && launched.runs then 0 else launched.status) ∧
        (active o.isInstance r.2.processes ≠ [] ↔ launched.runs = true)) := by
  intro gone r
  have hfinds : tools.finds o s₁ = [] ↔ gone := by
    rw [finds_eq_nil_iff hpidFile, hs₁, instances_leave, leave_eq_nil_iff, map_pid_instances_stop]
    exact List.forall_mem_map
  have hactive : active o.isInstance s₁.processes = [] := by
    rw [hs₁, active_leave, active_stop hpidFile]
    rfl
  refine ⟨fun hremains => ?_, fun hgone => ?_⟩
  · have hr : r = (o.idleStatus, s₁) :=
      tools.start_of_found (fun h => hremains (hfinds.mp h)) launched
    rw [hr]
    exact ⟨rfl, hactive⟩
  · have hnone := hfinds.mpr hgone
    have hinstance : o.isInstance ⟨o.exec, o.chuid⟩ = true := by
      simp [Options.isInstance, huser]
    refine ⟨tools.start_status hnone launched, ?_⟩
    rw [tools.start_processes hnone launched]
    cases launched.runs with
    | true => simp [hactive, hinstance]
    | false => simp [hactive]

end

/-! ## The scripts -/

/-- The scripts that find their daemon by the executable. -/
inductive ByExecutable where
  | samhainStandalone
  | samhainClient
  | samhainServer
  | parsec
  deriving Repr, DecidableEq

/-- The script, if it is one of samhain's. -/
def ByExecutable.samhain? : ByExecutable → Option Samhain
  | samhainStandalone => some Services.samhainStandalone
  | samhainClient => some Services.samhainClient
  | samhainServer => some Services.samhainServer
  | parsec => none

/-- The options of `start-stop-daemon`. -/
def ByExecutable.options (d : ByExecutable) : Options :=
  d.samhain?.elim parsecOptions Samhain.options

def ByExecutable.service (tools : Tools) (d : ByExecutable) : Service :=
  d.samhain?.elim (Services.parsec tools) fun script => script.service tools

theorem ByExecutable.options_spec (d : ByExecutable) :
    d.options.pidFile = false ∧ d.options.user = none := by
  cases d <;> exact ⟨rfl, rfl⟩

section

variable {tools : Tools} {host : Host}

/-- What the guards of samhain's script let through. -/
theorem Samhain.restart_of_guard {script : Samhain} (h : script.guard host = none)
    (ended : List Nat) (launched : Launch) (s : State) :
    script.restart tools host ended launched s = tools.start script.options launched
      { processes := Supervision.leave ended (tools.stop script.options s).2.processes
        pidFile := none } := by
  simp only [Samhain.restart, Samhain.start, Samhain.stop, h, State.leave]

/-- With `--oknodo` there is always something to go on with. -/
theorem stop_status_parsec (s : State) : (tools.stop parsecOptions s).1 = 0 := by
  rw [tools.stop_status]
  split
  · rfl
  · rfl

theorem parsecRestart_of_ready (hexecutable : host.executable = true)
    (hconfiguration : host.configuration = true) (ended : List Nat) (launched : Launch)
    (s : State) : parsecRestart tools host ended launched s =
      if host.directories.status ≠ 0 then
        (host.directories.status, (tools.stop parsecOptions s).2.leave ended)
      else tools.start parsecOptions launched ((tools.stop parsecOptions s).2.leave ended) := by
  simp only [parsecRestart, parsecStart, parsecStop, hexecutable, hconfiguration,
    stop_status_parsec, Bool.not_true, Bool.false_eq_true, if_false, if_true]

end

/-- A `restart` of samhain succeeds exactly if every old daemon had ended when the new one was
started and `start-stop-daemon` could start it, and an active daemon is there afterwards exactly if
every old one had ended and the new one runs. -/
theorem samhain_restart_status (tools : Tools) (d : ByExecutable) {script : Samhain}
    (hscript : d.samhain? = some script) {host : Host} (hguard : script.guard host = none)
    (ended : List Nat) (launched : Launch) (s : State) :
    let gone := ∀ p ∈ instances d.options.isInstance s.processes, p.pid ∈ ended
    let r := (d.service tools).restart host ended launched s
    (r.1 = 0 ↔ gone ∧ launched.status = 0) ∧
      (active d.options.isInstance r.2.processes ≠ [] ↔ gone ∧ launched.runs = true) := by
  intro gone r
  obtain ⟨hpidFile, huser⟩ := d.options_spec
  have hoptions : d.options = script.options := by rw [ByExecutable.options, hscript]; rfl
  have hquiet : d.options.idleStatus = 1 ∧ d.options.background = false := by
    rw [hoptions]
    cases d <;> cases hscript <;> exact ⟨rfl, rfl⟩
  have hrestart : r = tools.start d.options launched
      { processes := Supervision.leave ended (tools.stop d.options s).2.processes
        pidFile := none } := by
    show (d.service tools).restart host ended launched s = _
    rw [ByExecutable.service, hscript, hoptions]
    exact Samhain.restart_of_guard hguard ended launched s
  obtain ⟨hremains, hgone⟩ := start_after_stop hpidFile tools huser ended launched
    { processes := Supervision.leave ended (tools.stop d.options s).2.processes
      pidFile := none } rfl
  rw [hrestart]
  by_cases h : gone
  · obtain ⟨hstatus, hactive⟩ := hgone h
    rw [hstatus, hactive, hquiet.2]
    simp [h]
  · obtain ⟨hstatus, hactive⟩ := hremains h
    rw [hstatus, hactive, hquiet.1]
    simp [h]

/-- The old daemon is still there, so that the script fails and no active daemon is left. -/
theorem samhain_restart_too_early :
    let host : Host := ⟨true, true, false, false, [], .ready⟩
    let s : State := ⟨[⟨7, ⟨"/usr/sbin/yule".toList, "root".toList⟩, false⟩], none⟩
    let r := (ByExecutable.samhainServer.service .firstPid).restart host [] ⟨8, true, 0⟩ s
    r.1 ≠ 0 ∧ active ByExecutable.samhainServer.options.isInstance r.2.processes = [] := by
  intro host s r
  obtain ⟨hstatus, hactive⟩ := samhain_restart_status .firstPid .samhainServer rfl
    (show samhainServer.guard host = none from rfl) [] ⟨8, true, 0⟩ s
  have hremains : ¬ ∀ p ∈ instances ByExecutable.samhainServer.options.isInstance s.processes,
      p.pid ∈ [] := by
    intro hgone
    exact absurd (hgone _ ((mem_instances ..).mpr ⟨List.mem_singleton_self _, by decide⟩))
      List.not_mem_nil
  exact ⟨fun h => hremains (hstatus.mp h).1, not_not.mp fun h => hremains (hactive.mp h).1⟩

/-- With its configuration in place a `restart` of parsec succeeds unless the commands before
`start-stop-daemon` fail, or the start of a daemon that does not run; also where an old daemon is
still there. An active daemon is there afterwards exactly if the commands succeed, every old daemon
had ended in no time, and the new one runs. -/
theorem parsec_restart_silent (tools : Tools) {host : Host} (hexecutable : host.executable = true)
    (hconfiguration : host.configuration = true) (ended : List Nat) (launched : Launch)
    (s : State) :
    let gone := ∀ p ∈ instances parsecOptions.isInstance s.processes, p.pid ∈ ended
    let r := parsecRestart tools host ended launched s
    (r.1 = 0 ↔ host.directories.status = 0 ∧
        (gone → launched.runs = true ∨ launched.status = 0)) ∧
      (active parsecOptions.isInstance r.2.processes ≠ [] ↔
        host.directories.status = 0 ∧ gone ∧ launched.runs = true) := by
  intro gone r
  have hpidFile : parsecOptions.pidFile = false := rfl
  have hactive : active parsecOptions.isInstance
      ((tools.stop parsecOptions s).2.leave ended).processes = [] := by
    show active parsecOptions.isInstance
      (Supervision.leave ended (tools.stop parsecOptions s).2.processes) = []
    rw [active_leave, active_stop hpidFile]
    rfl
  obtain ⟨hremains, hgone⟩ := start_after_stop hpidFile tools rfl ended launched
    ((tools.stop parsecOptions s).2.leave ended) rfl
  have hr : r = _ := parsecRestart_of_ready hexecutable hconfiguration ended launched s
  rw [hr]
  by_cases hdirectories : host.directories.status = 0
  · rw [if_neg (not_not.mpr hdirectories)]
    by_cases h : gone
    · obtain ⟨hstatus, hruns⟩ := hgone h
      rw [hstatus, hruns]
      have hbackground : parsecOptions.background = true := rfl
      rw [hbackground]
      cases launched.runs with
      | true => simp [hdirectories, h]
      | false => simp [hdirectories, h]
    · obtain ⟨hstatus, hnone⟩ := hremains h
      have hidle : parsecOptions.idleStatus = 0 := rfl
      rw [hstatus, hnone, hidle]
      simp [hdirectories, h]
  · rw [if_pos hdirectories]
    simp [hdirectories, hactive]

/-- A `restart` of parsec that does not find the old daemon gone: it says that all is well, and no
daemon stays. -/
theorem parsec_restart_too_early :
    let host : Host := ⟨true, true, true, true, [], .ready⟩
    let s : State := ⟨[⟨7, ⟨parsecOptions.exec, "parsec".toList⟩, false⟩], none⟩
    let r := parsecRestart .firstPid host [] ⟨8, true, 0⟩ s
    r.1 = 0 ∧ active parsecOptions.isInstance r.2.processes = [] := by
  intro host s r
  obtain ⟨hstatus, hactive⟩ := parsec_restart_silent .firstPid
    (show host.executable = true from rfl) rfl [] ⟨8, true, 0⟩ s
  refine ⟨hstatus.mpr ⟨rfl, fun _ => Or.inl rfl⟩, not_not.mp fun hne => ?_⟩
  have hended := (hactive.mp hne).2.1 ⟨7, ⟨parsecOptions.exec, "parsec".toList⟩, false⟩
    ((mem_instances ..).mpr ⟨List.mem_singleton_self _, by decide⟩)
  exact absurd hended List.not_mem_nil

/-! ## Runs -/

/-- Nothing but the script starts the daemon. -/
def Exclusive (o : Options) : Action → Prop
  | .other _ image => o.isInstance image = false
  | _ => True

/-- At most one instance is there. -/
def Single (o : Options) (s : State) : Prop :=
  (instances o.isInstance s.processes).length ≤ 1

section

variable {tools : Tools} {o : Options} {s : State}

theorem start_single (hpidFile : o.pidFile = false) (h : Single o s) (launched : Launch) :
    Single o (tools.start o launched s).2 := by
  by_cases hfinds : tools.finds o s = []
  · have hnone := (finds_eq_nil_iff hpidFile).mp hfinds
    rw [Single, tools.start_processes hfinds]
    cases launched.runs with
    | true =>
        show (instances o.isInstance (launch launched.pid ⟨o.exec, o.chuid⟩ s.processes)).length ≤ 1
        rw [instances_launch, hnone]
        split
        · simp
        · simp
    | false => exact h
  · rw [tools.start_of_found hfinds]
    exact h

theorem stop_single (h : Single o s) : Single o (tools.stop o s).2 := by
  rw [Single, tools.stop_processes, length_instances_tell]
  exact h

theorem leave_single (h : Single o s) (pids : List Nat) : Single o (s.leave pids) :=
  (length_instances_leave_le ..).trans h

theorem forget_single (h : Single o s) : Single o { s with pidFile := none } := h

variable (host : Host)

theorem Samhain.start_single {script : Samhain} (hpidFile : script.options.pidFile = false)
    (h : Single script.options s) (launched : Launch) :
    Single script.options (script.start tools host launched s).2 := by
  unfold Samhain.start
  split
  · exact h
  · exact Services.start_single hpidFile (forget_single h) launched

theorem Samhain.stop_single {script : Samhain} (h : Single script.options s) :
    Single script.options (script.stop tools host s).2 := by
  unfold Samhain.stop
  split
  · exact h
  · exact forget_single (Services.stop_single h)

theorem parsecStart_single (h : Single parsecOptions s) (launched : Launch) :
    Single parsecOptions (parsecStart tools host launched s).2 := by
  unfold parsecStart
  split
  · exact h
  split
  · exact h
  split
  · exact h
  · exact start_single rfl h launched

theorem parsecStop_single (h : Single parsecOptions s) :
    Single parsecOptions (parsecStop tools host s).2 := by
  unfold parsecStop
  split
  · exact h
  · exact stop_single h

theorem ByExecutable.start_single (d : ByExecutable) (h : Single d.options s)
    (launched : Launch) : Single d.options ((d.service tools).start host launched s).2 := by
  obtain ⟨hpidFile, -⟩ := d.options_spec
  unfold ByExecutable.options at *
  unfold ByExecutable.service
  cases hd : d.samhain? with
  | none =>
      rw [hd] at h
      exact parsecStart_single host h launched
  | some script =>
      rw [hd] at h hpidFile
      exact Samhain.start_single host hpidFile h launched

theorem ByExecutable.stop_single (d : ByExecutable) (h : Single d.options s) :
    Single d.options ((d.service tools).stop host s).2 := by
  unfold ByExecutable.options at *
  unfold ByExecutable.service
  cases hd : d.samhain? with
  | none =>
      rw [hd] at h
      exact parsecStop_single host h
  | some script =>
      rw [hd] at h
      exact Samhain.stop_single host h

/-- A `restart` does nothing, or it stops and perhaps starts. -/
theorem ByExecutable.restart_cases (tools : Tools) (d : ByExecutable) (ended : List Nat)
    (launched : Launch) (s : State) :
    let service := d.service tools
    (service.restart host ended launched s).2 = s ∨
      (service.restart host ended launched s).2 = (service.stop host s).2 ∨
      (service.restart host ended launched s).2 =
        (service.start host launched ((service.stop host s).2.leave ended)).2 := by
  unfold ByExecutable.service
  cases d.samhain? with
  | none =>
      show (parsecRestart tools host ended launched s).2 = s ∨
        (parsecRestart tools host ended launched s).2 = (parsecStop tools host s).2 ∨
        (parsecRestart tools host ended launched s).2 =
          (parsecStart tools host launched ((parsecStop tools host s).2.leave ended)).2
      unfold parsecRestart
      dsimp only
      split
      · exact Or.inl rfl
      split
      · exact Or.inr (Or.inr rfl)
      · exact Or.inr (Or.inl rfl)
  | some script =>
      show (script.restart tools host ended launched s).2 = s ∨
        (script.restart tools host ended launched s).2 = (script.stop tools host s).2 ∨
        (script.restart tools host ended launched s).2 =
          (script.start tools host launched ((script.stop tools host s).2.leave ended)).2
      unfold Samhain.restart
      split
      · exact Or.inl rfl
      · exact Or.inr (Or.inr rfl)

theorem ByExecutable.reload_state (d : ByExecutable) (s : State) :
    ((d.service tools).reload host s).2 = s := by
  unfold ByExecutable.service
  cases d.samhain? with
  | none =>
      show (parsecReload tools host s).2 = s
      unfold parsecReload
      split
      · rfl
      · rfl
  | some script =>
      show (script.reload tools host s).2 = s
      unfold Samhain.reload
      split
      · rfl
      · rfl

end

/-- No command of a script makes two daemons out of one. -/
theorem ByExecutable.perform_single {tools : Tools} (d : ByExecutable) {s : State}
    (h : Single d.options s) {action : Action} (hexclusive : Exclusive d.options action) :
    Single d.options ((d.service tools).perform action s) := by
  cases action with
  | start host launched => exact d.start_single host h launched
  | stop host => exact d.stop_single host h
  | reload host =>
      show Single d.options ((d.service tools).reload host s).2
      rw [d.reload_state]
      exact h
  | restart host ended launched =>
      show Single d.options ((d.service tools).restart host ended launched s).2
      have hstopped : Single d.options ((d.service tools).stop host s).2 := d.stop_single host h
      rcases d.restart_cases host tools ended launched s with heq | heq | heq
      · rw [heq]
        exact h
      · rw [heq]
        exact hstopped
      · rw [heq]
        exact d.start_single host (leave_single hstopped ended) launched
  | leave pids => exact leave_single h pids
  | other pid image =>
      show (instances d.options.isInstance (launch pid image s.processes)).length ≤ 1
      rw [instances_launch, show d.options.isInstance image = false from hexclusive,
        if_neg Bool.false_ne_true, List.append_nil]
      exact h

/-- Over any run, whatever processes end and whenever they do, there is at most one daemon. -/
theorem single_daemon (tools : Tools) (d : ByExecutable) {s : State} (h : Single d.options s)
    {actions : List Action} (hexclusive : ∀ action ∈ actions, Exclusive d.options action) :
    Single d.options (after (d.service tools).perform s actions) := by
  induction actions generalizing s with
  | nil => exact h
  | cons action actions ih =>
      exact ih (d.perform_single h (hexclusive action List.mem_cons_self))
        fun other hmem => hexclusive other (List.mem_cons_of_mem _ hmem)

/-- A daemon that is started twice and restarted while the old one still ends. -/
theorem single_daemon_restarted :
    let host : Host := ⟨true, true, false, false, [], .ready⟩
    let actions := [Action.start host ⟨7, true, 0⟩, .start host ⟨8, true, 0⟩,
      .restart host [] ⟨9, true, 0⟩, .restart host [7] ⟨10, true, 0⟩]
    let perform := (ByExecutable.samhainServer.service .firstPid).perform
    Single ByExecutable.samhainServer.options (after perform ⟨[], none⟩ actions) ∧
      (after perform ⟨[], none⟩ actions).processes.map Process.pid = [10] := by
  intro host actions perform
  have hempty : Single ByExecutable.samhainServer.options ⟨[], none⟩ := Nat.zero_le 1
  refine ⟨single_daemon .firstPid .samhainServer hempty fun action haction => ?_, ?_⟩
  · simp only [actions, List.mem_cons, List.not_mem_nil, or_false] at haction
    obtain rfl | rfl | rfl | rfl := haction <;> exact trivial
  · show (after perform ⟨[], none⟩ actions).processes.map Process.pid = [10]
    decide +kernel

end MetaSecurity.Services
