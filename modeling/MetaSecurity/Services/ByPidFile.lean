import MetaSecurity.Services.ByExecutable

/-!
# Daemons that are found by their pid file

The scripts of tcsd and tpm2-abrmd look at the pid file, which `stop` removes. A daemon that has
been told to end is no longer found then, so that a `restart` always starts another one. tcsd's
script has the pid of the daemon written by `start-stop-daemon`, and it is never wrong about the
active daemon. tpm2-abrmd's script lists every process, and it is right as long as no old daemon is
still there when the next one is started.
-/

namespace MetaSecurity.Services

open Library Shell Supervision Traces

/-- The pid file names the active daemon, and nothing else. -/
def Recorded (o : Options) (s : State) : Prop :=
  ∀ p ∈ active o.isInstance s.processes, s.pidFile = some [p.pid]

/-- The pids of the processes are different. -/
def Distinct (s : State) : Prop :=
  (s.processes.map Process.pid).Nodup

/-- Other programs do not start the daemon, and a new process has a pid of its own. -/
def Possible (o : Options) (s : State) : Action → Prop
  | .start _ launched => launched.pid ∉ s.processes.map Process.pid
  | .restart _ _ launched => launched.pid ∉ s.processes.map Process.pid
  | .other pid image => o.isInstance image = false ∧ pid ∉ s.processes.map Process.pid
  | _ => True

/-- Before anything has been started. -/
def Idle (o : Options) (s : State) : Prop :=
  instances o.isInstance s.processes = []

section

variable {tools : Tools} {o : Options} {s : State}

/-- Two active daemons would have the same pid. -/
theorem length_active_le_one (hrecorded : Recorded o s) (hdistinct : Distinct s) :
    (active o.isInstance s.processes).length ≤ 1 := by
  have hnodup : ((active o.isInstance s.processes).map Process.pid).Nodup :=
    hdistinct.sublist (List.filter_sublist.map _)
  match hactive : active o.isInstance s.processes with
  | [] => simp
  | [p] => simp
  | p :: q :: rest =>
      have hp : s.pidFile = some [p.pid] := hrecorded p (by simp [hactive])
      have hq : s.pidFile = some [q.pid] := hrecorded q (by simp [hactive])
      have hpq : p.pid = q.pid := by simpa using hp.symm.trans hq
      rw [hactive] at hnodup
      exact absurd hnodup (by simp [hpq])

theorem Idle.recorded (h : Idle o s) : Recorded o s := by
  intro p hp
  obtain ⟨hthere, hinstance, -⟩ := (mem_active ..).mp hp
  have hmem : p ∈ instances o.isInstance s.processes :=
    (mem_instances ..).mpr ⟨hthere, hinstance⟩
  rw [show instances o.isInstance s.processes = [] from h] at hmem
  exact absurd hmem List.not_mem_nil

theorem recorded_of_none (h : active o.isInstance s.processes = []) : Recorded o s := by
  intro p hp
  rw [h] at hp
  exact absurd hp List.not_mem_nil

theorem leave_distinct (hdistinct : Distinct s) (pids : List Nat) : Distinct (s.leave pids) :=
  hdistinct.sublist (List.filter_sublist.map _)

theorem leave_recorded (hrecorded : Recorded o s) (pids : List Nat) :
    Recorded o (s.leave pids) := by
  intro p hp
  have hp' : p ∈ Supervision.leave pids (active o.isInstance s.processes) := by
    rw [← active_leave]
    exact hp
  exact hrecorded p (List.mem_of_mem_filter hp')

theorem launch_distinct (hdistinct : Distinct s) {pid : Nat}
    (hfresh : pid ∉ s.processes.map Process.pid) (image : Image) :
    ((launch pid image s.processes).map Process.pid).Nodup := by
  rw [launch, List.map_append]
  refine List.nodup_append.mpr ⟨hdistinct, by simp, fun a ha b hb hab => hfresh ?_⟩
  rw [List.map_singleton, List.mem_singleton] at hb
  rwa [hab, hb] at ha

theorem other_recorded (hrecorded : Recorded o s) {image : Image}
    (hother : o.isInstance image = false) (pid : Nat) :
    Recorded o { s with processes := launch pid image s.processes } := by
  intro p hp
  simp only [active_launch, hother, Bool.false_eq_true, if_false, List.append_nil] at hp
  exact hrecorded p hp

/-! ### `start-stop-daemon` with a pid file -/

theorem start_distinct (hdistinct : Distinct s) {launched : Launch}
    (hfresh : launched.pid ∉ s.processes.map Process.pid) :
    Distinct (tools.start o launched s).2 := by
  by_cases hfinds : tools.finds o s = []
  · rw [Distinct, tools.start_processes hfinds]
    split
    · exact launch_distinct hdistinct hfresh _
    · exact hdistinct
  · rw [tools.start_of_found hfinds]
    exact hdistinct

variable (hpidFile : o.pidFile = true)

include hpidFile

/-- An active daemon is found in a pid file that is right. -/
theorem mem_finds_of_recorded (hrecorded : Recorded o s) {p : Process Image}
    (hp : p ∈ active o.isInstance s.processes) : p.pid ∈ tools.finds o s := by
  obtain ⟨hthere, hinstance, -⟩ := (mem_active ..).mp hp
  rw [tools.finds_of_singleton hpidFile (hrecorded p hp)]
  refine List.mem_filter.mpr ⟨List.mem_map_of_mem ?_, decide_eq_true rfl⟩
  exact (mem_instances ..).mpr ⟨hthere, hinstance⟩

/-- After `--stop` no daemon is active then. -/
theorem active_stop_of_recorded (hrecorded : Recorded o s) :
    active o.isInstance (tools.stop o s).2.processes = [] :=
  active_stop_eq_nil fun _ hp => mem_finds_of_recorded hpidFile hrecorded hp

theorem active_of_finds_nil (hrecorded : Recorded o s) (hfinds : tools.finds o s = []) :
    active o.isInstance s.processes = [] := by
  refine List.eq_nil_iff_forall_not_mem.mpr fun p hp => ?_
  have hfound : p.pid ∈ tools.finds o s := mem_finds_of_recorded hpidFile hrecorded hp
  rw [hfinds] at hfound
  exact absurd hfound List.not_mem_nil

/-- `--make-pidfile` keeps the pid file right. -/
theorem start_recorded (hmake : o.makePidfile = true) (hrecorded : Recorded o s)
    (launched : Launch) : Recorded o (tools.start o launched s).2 := by
  by_cases hfinds : tools.finds o s = []
  · have hnone := active_of_finds_nil hpidFile hrecorded hfinds
    cases hruns : launched.runs with
    | true =>
        intro p hp
        rw [tools.start_processes hfinds, hruns, if_pos rfl, active_launch, hnone,
          List.nil_append] at hp
        split at hp
        · rw [List.mem_singleton.mp hp]
          exact tools.start_pidFile hfinds launched hmake hruns
        · exact absurd hp List.not_mem_nil
    | false =>
        refine recorded_of_none ?_
        rw [tools.start_processes hfinds, hruns, if_neg Bool.false_ne_true]
        exact hnone
  · rw [tools.start_of_found hfinds]
    exact hrecorded

/-- Without a pid file no daemon is found. -/
theorem finds_of_forgotten (hforgotten : s.pidFile = none) : tools.finds o s = [] :=
  tools.finds_of_empty hpidFile (by rw [hforgotten]; rfl)

end

/-! ## `stop`, which forgets the daemon -/

section

variable {tools : Tools} {o : Options} {host : Host} {s : State}

/-- The processes are the same after `stop`. -/
theorem stopAndForget_map_pid :
    (stopAndForget tools o host s).2.processes.map Process.pid = s.processes.map Process.pid := by
  unfold stopAndForget
  split
  · rfl
  · exact map_pid_stop

theorem stopAndForget_distinct (hdistinct : Distinct s) :
    Distinct (stopAndForget tools o host s).2 := by
  rw [Distinct, stopAndForget_map_pid]
  exact hdistinct

theorem stopAndForget_recorded (hpidFile : o.pidFile = true) (hrecorded : Recorded o s) :
    Recorded o (stopAndForget tools o host s).2 := by
  unfold stopAndForget
  split
  · exact hrecorded
  · exact recorded_of_none (active_stop_of_recorded hpidFile hrecorded)

theorem stopped_fresh {ended : List Nat} {pid : Nat} (hfresh : pid ∉ s.processes.map Process.pid) :
    pid ∉ ((stopAndForget tools o host s).2.leave ended).processes.map Process.pid := by
  intro hmem
  have hstopped : pid ∈ (stopAndForget tools o host s).2.processes.map Process.pid :=
    List.map_subset _ (List.filter_subset_self _) hmem
  rw [stopAndForget_map_pid] at hstopped
  exact hfresh hstopped

/-- What `stop` and the end of some processes come to, where the script does not give up. -/
theorem stopAndForget_leave (hexecutable : host.executable = true) (ended : List Nat) :
    (stopAndForget tools o host s).2.leave ended =
      ⟨Supervision.leave ended (tools.stop o s).2.processes, none⟩ := by
  simp only [stopAndForget, hexecutable, Bool.not_true, Bool.false_eq_true, if_false, State.leave]

/-- A daemon is started next to what remains of those that were there. -/
theorem length_instances_restart (ended : List Nat) (pid : Nat) {image : Image}
    (hinstance : o.isInstance image = true) :
    (instances o.isInstance
        (launch pid image (Supervision.leave ended (tools.stop o s).2.processes))).length = 1 ↔
      ∀ p ∈ instances o.isInstance s.processes, p.pid ∈ ended := by
  rw [instances_launch, if_pos hinstance, instances_leave, List.length_append,
    List.length_singleton, Nat.add_eq_right, List.length_eq_zero_iff, leave_eq_nil_iff,
    map_pid_instances_stop]
  exact List.forall_mem_map

end

/-! ## tcsd -/

section

variable {tools : Tools} {host : Host} {s : State}

/-- The script gives up, or `start-stop-daemon` is called. -/
theorem tcsdStart_cases (launched : Launch) :
    tcsdStart tools host launched s = (0, s) ∨
      tcsdStart tools host launched s = tools.start tcsdOptions launched s := by
  unfold tcsdStart
  split
  · exact Or.inl rfl
  split
  · exact Or.inl rfl
  · exact Or.inr rfl

theorem tcsdStart_distinct (hdistinct : Distinct s) {launched : Launch}
    (hfresh : launched.pid ∉ s.processes.map Process.pid) :
    Distinct (tcsdStart tools host launched s).2 := by
  rcases tcsdStart_cases launched with heq | heq
  · rw [heq]
    exact hdistinct
  · rw [heq]
    exact start_distinct hdistinct hfresh

theorem tcsdStart_recorded (hrecorded : Recorded tcsdOptions s) (launched : Launch) :
    Recorded tcsdOptions (tcsdStart tools host launched s).2 := by
  rcases tcsdStart_cases launched with heq | heq
  · rw [heq]
    exact hrecorded
  · rw [heq]
    exact start_recorded rfl rfl hrecorded launched

theorem tcsd_perform_recorded (hdistinct : Distinct s) (hrecorded : Recorded tcsdOptions s)
    {action : Action} (hpossible : Possible tcsdOptions s action) :
    Distinct ((tcsd tools).perform action s) ∧
      Recorded tcsdOptions ((tcsd tools).perform action s) := by
  cases action with
  | start host launched =>
      exact ⟨tcsdStart_distinct hdistinct hpossible, tcsdStart_recorded hrecorded launched⟩
  | stop host =>
      exact ⟨stopAndForget_distinct hdistinct, stopAndForget_recorded rfl hrecorded⟩
  | reload host => exact ⟨hdistinct, hrecorded⟩
  | restart host ended launched =>
      have hstopped : Recorded tcsdOptions ((tcsdStop tools host s).2.leave ended) :=
        leave_recorded (stopAndForget_recorded rfl hrecorded) ended
      have hdistinct' : Distinct ((tcsdStop tools host s).2.leave ended) :=
        leave_distinct (stopAndForget_distinct hdistinct) ended
      show Distinct (tcsdRestart tools host ended launched s).2 ∧
        Recorded tcsdOptions (tcsdRestart tools host ended launched s).2
      unfold tcsdRestart
      split
      · exact ⟨hdistinct, hrecorded⟩
      · exact ⟨tcsdStart_distinct hdistinct' (stopped_fresh hpossible),
          tcsdStart_recorded hstopped launched⟩
  | leave pids => exact ⟨leave_distinct hdistinct pids, leave_recorded hrecorded pids⟩
  | other pid image =>
      exact ⟨launch_distinct hdistinct hpossible.2 image, other_recorded hrecorded hpossible.1 pid⟩

theorem after_tcsd (hidle : Idle tcsdOptions s) (hdistinct : Distinct s) {actions : List Action}
    (h : EachStep (tcsd tools).perform (Possible tcsdOptions) s actions) :
    Distinct (after (tcsd tools).perform s actions) ∧
      Recorded tcsdOptions (after (tcsd tools).perform s actions) :=
  h.invariant (I := fun s => Distinct s ∧ Recorded tcsdOptions s)
    (fun hI hpossible => tcsd_perform_recorded hI.1 hI.2 hpossible) ⟨hdistinct, hidle.recorded⟩

/-- A `restart` comes to the start of a daemon without a pid file. -/
theorem tcsdRestart_eq (hexecutable : host.executable = true) (hdevices : host.devices ≠ [])
    (ended : List Nat) (launched : Launch) :
    tcsdRestart tools host ended launched s = tools.start tcsdOptions launched
      ⟨Supervision.leave ended (tools.stop tcsdOptions s).2.processes, none⟩ := by
  rw [tcsdRestart, hexecutable, tcsdStop, stopAndForget_leave hexecutable, tcsdStart, hexecutable]
  simp [hdevices]

end

/-- Over any run there is at most one active tcsd, and the pid file names it, whenever the processes
end; and a `restart` always leaves an active one, also next to an old one that has not ended. -/
theorem tcsd_restart_active (tools : Tools) {s : State} (hidle : Idle tcsdOptions s)
    (hdistinct : Distinct s) {actions : List Action}
    (h : EachStep (tcsd tools).perform (Possible tcsdOptions) s actions) {host : Host}
    (hexecutable : host.executable = true) (hdevices : host.devices ≠ []) (ended : List Nat)
    {launched : Launch} (hruns : launched.runs = true) :
    let s₁ := after (tcsd tools).perform s actions
    let r := tcsdRestart tools host ended launched s₁
    (active tcsdOptions.isInstance s₁.processes).length ≤ 1 ∧ Recorded tcsdOptions s₁ ∧
      r.1 = 0 ∧ r.2.pidFile = some [launched.pid] ∧
      active tcsdOptions.isInstance r.2.processes =
        [⟨launched.pid, ⟨tcsdOptions.exec, tcsdOptions.chuid⟩, false⟩] ∧
      ((instances tcsdOptions.isInstance r.2.processes).length = 1 ↔
        ∀ p ∈ instances tcsdOptions.isInstance s₁.processes, p.pid ∈ ended) := by
  intro s₁ r
  obtain ⟨hdistinct₁, hrecorded⟩ := after_tcsd hidle hdistinct h
  have hinstance : tcsdOptions.isInstance ⟨tcsdOptions.exec, tcsdOptions.chuid⟩ = true := by decide
  have hr : r = _ := tcsdRestart_eq hexecutable hdevices ended launched
  have hforgotten : tools.finds tcsdOptions
      ⟨Supervision.leave ended (tools.stop tcsdOptions s₁).2.processes, none⟩ = [] :=
    finds_of_forgotten rfl rfl
  have hprocesses := tools.start_processes hforgotten launched
  rw [hruns, if_pos rfl] at hprocesses
  refine ⟨length_active_le_one hrecorded hdistinct₁, hrecorded, ?_⟩
  rw [hr, hprocesses]
  refine ⟨?_, tools.start_pidFile hforgotten launched rfl hruns, ?_,
    length_instances_restart ended launched.pid hinstance⟩
  · rw [tools.start_status hforgotten, hruns]
    rfl
  · rw [active_launch, if_pos hinstance, active_leave, active_stop_of_recorded rfl hrecorded]
    rfl

/-- A tcsd that takes its time to end: two of them are there after a `restart`, and one is
active. -/
theorem tcsd_restart_overlap :
    let host : Host := ⟨true, true, true, true, ["/dev/tpm0".toList], .ready⟩
    let s₁ := after (tcsd .firstPid).perform ⟨[], none⟩ [.start host ⟨7, true, 0⟩]
    let r := tcsdRestart .firstPid host [] ⟨8, true, 0⟩ s₁
    r.1 = 0 ∧ active tcsdOptions.isInstance r.2.processes =
        [⟨8, ⟨tcsdOptions.exec, tcsdOptions.chuid⟩, false⟩] ∧
      (instances tcsdOptions.isInstance r.2.processes).length ≠ 1 := by
  intro host s₁ r
  have hrun : EachStep (tcsd .firstPid).perform (Possible tcsdOptions) ⟨[], none⟩
      [.start host ⟨7, true, 0⟩] := ⟨List.not_mem_nil, trivial⟩
  obtain ⟨-, -, hstatus, -, hactive, hinstances⟩ := tcsd_restart_active .firstPid
    (show Idle tcsdOptions ⟨[], none⟩ from rfl) List.nodup_nil hrun
    (show host.executable = true from rfl) (List.cons_ne_nil _ _) []
    (show Launch.runs ⟨8, true, 0⟩ = true from rfl)
  refine ⟨hstatus, hactive, fun hone => ?_⟩
  have hended := hinstances.mp hone ⟨7, ⟨tcsdOptions.exec, tcsdOptions.chuid⟩, false⟩ (by decide)
  exact absurd hended List.not_mem_nil

end MetaSecurity.Services
