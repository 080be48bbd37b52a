import MetaSecurity.Services.ByPidFile

/-!
# A pid file that lists all processes

The script of tpm2-abrmd writes what `pidof` says into its pid file. The file is right as long as no
old daemon is still there when the next one is started, and as `pidof` does not look too early.
Otherwise it may list several processes, or none, and then `stop` may not reach the daemon.
-/

namespace MetaSecurity.Services

open Library Shell Supervision Traces

/-- Every process with the executable is a daemon of the service. -/
def Own (s : State) : Prop :=
  ∀ p ∈ s.processes, p.image.exec = abrmdOptions.exec → abrmdOptions.isInstance p.image = true

/-- No daemon that has been told to end is there any more when the next one is started, and `pidof`
sees the new one. -/
def Settled (visible : Nat → Bool) (s : State) : Action → Prop
  | .start _ launched => launched.pid ∉ s.processes.map Process.pid ∧ visible launched.pid = true ∧
      ∀ p ∈ instances abrmdOptions.isInstance s.processes, p.told = false
  | .restart _ ended launched =>
      launched.pid ∉ s.processes.map Process.pid ∧ visible launched.pid = true ∧
        ∀ p ∈ instances abrmdOptions.isInstance s.processes, p.pid ∈ ended
  | .other pid image => pid ∉ s.processes.map Process.pid ∧ image.exec ≠ abrmdOptions.exec
  | _ => True

theorem exec_of_isInstance {o : Options} {image : Image} (h : o.isInstance image = true) :
    image.exec = o.exec :=
  of_decide_eq_true ((Bool.and_eq_true ..).mp h).1

/-- With one process there is one order. -/
theorem Pidof.list_singleton (pidof : Pidof) (p : Process Image) : pidof.list [p] = [p.pid] :=
  List.perm_singleton.mp (pidof.perm [p])

/-- The processes in the order of the table. -/
def Pidof.inOrder : Pidof :=
  ⟨fun processes => processes.map Process.pid, fun _ => List.Perm.refl _⟩

/-- Where the first number of the pid file counts, `--stop` reaches all active daemons only if it is
the number of each of them. -/
theorem head_of_active_stop {o : Options} (hpidFile : o.pidFile = true) {s : State}
    {pids : List Nat} (hfile : s.pidFile = some pids)
    (hnone : active o.isInstance (Tools.firstPid.stop o s).2.processes = []) :
    ∀ p ∈ active o.isInstance s.processes, pids.head? = some p.pid := by
  intro p hp
  have hfound : p.pid ∈ Tools.firstPid.finds o s := by
    by_contra hmissed
    have hmem : p ∈ active o.isInstance (Tools.firstPid.stop o s).2.processes := by
      rw [Tools.firstPid.stop_processes]
      exact (mem_active_tell ..).mpr ⟨hp, by simpa using hmissed⟩
    rw [hnone] at hmem
    exact absurd hmem List.not_mem_nil
  have hhead := (List.mem_filter.mp hfound).2
  simpa [hpidFile, hfile] using hhead

section

variable {tools : Tools} {pidof : Pidof} {visible : Nat → Bool} {host : Host} {s : State}

theorem own_leave (hown : Own s) (pids : List Nat) : Own (s.leave pids) :=
  fun p hp => hown p (List.mem_of_mem_filter hp)

theorem own_launch (hown : Own s) (pid : Nat) {image : Image}
    (himage : image.exec = abrmdOptions.exec → abrmdOptions.isInstance image = true) :
    ∀ p ∈ launch pid image s.processes,
      p.image.exec = abrmdOptions.exec → abrmdOptions.isInstance p.image = true := by
  intro p hp hexec
  rcases List.mem_append.mp hp with hold | hnew
  · exact hown p hold hexec
  · rw [List.mem_singleton.mp hnew] at hexec ⊢
    exact himage hexec

theorem own_stop (hown : Own s) : Own (tools.stop abrmdOptions s).2 := by
  intro p hp hexec
  rw [tools.stop_processes] at hp
  obtain ⟨q, hq, hpq⟩ := List.mem_map.mp hp
  have himage : p.image = q.image := by
    rw [← hpq]
    split
    · rfl
    · rfl
  rw [himage] at hexec ⊢
  exact hown q hq hexec

theorem own_start (hown : Own s) (launched : Launch) :
    Own (tools.start abrmdOptions launched s).2 := by
  by_cases hfinds : tools.finds abrmdOptions s = []
  · rw [Own, tools.start_processes hfinds]
    split
    · exact own_launch hown launched.pid fun _ => by decide
    · exact hown
  · rw [tools.start_of_found hfinds]
    exact hown

/-- The script gives up, or the processes are those that `start-stop-daemon` leaves. -/
theorem abrmdStart_processes (launched : Launch) :
    (abrmdStart tools pidof visible host launched s).2.processes = s.processes ∨
      (abrmdStart tools pidof visible host launched s).2.processes =
        (tools.start abrmdOptions launched s).2.processes := by
  unfold abrmdStart
  dsimp only
  split
  · exact Or.inl rfl
  split
  · exact Or.inl rfl
  split
  · exact Or.inr rfl
  · exact Or.inr rfl

theorem own_abrmdStart (hown : Own s) (launched : Launch) :
    Own (abrmdStart tools pidof visible host launched s).2 := by
  rcases abrmdStart_processes launched with heq | heq
  · rw [Own, heq]
    exact hown
  · rw [Own, heq]
    exact own_start hown launched

theorem own_abrmdStop (hown : Own s) : Own (abrmdStop tools host s).2 := by
  unfold abrmdStop stopAndForget
  split
  · exact hown
  · exact own_stop hown

/-- Of processes that are all visible `pidof` lists the daemons. -/
theorem seen_eq_instances (hown : Own s) {launched : Launch}
    (hvisible : visible launched.pid = true) :
    seen visible launched s.processes = instances abrmdOptions.isInstance s.processes := by
  refine List.filter_congr fun p hp => ?_
  have hseen : (p.pid != launched.pid || visible p.pid) = true := by
    by_cases hpid : p.pid = launched.pid
    · rw [hpid, hvisible, Bool.or_true]
    · rw [bne_iff_ne.mpr hpid, Bool.true_or]
  rw [hseen, Bool.and_true]
  by_cases hexec : p.image.exec = abrmdOptions.exec
  · rw [hown p hp hexec, decide_eq_true hexec]
  · rw [decide_eq_false hexec]
    simp [Options.isInstance, hexec]

/-- What is there after the start of a daemon next to which no other one is still ending. -/
theorem instances_start (tools : Tools) (hdistinct : Distinct s)
    (hrecorded : Recorded abrmdOptions s)
    (hsettled : ∀ p ∈ instances abrmdOptions.isInstance s.processes, p.told = false)
    (launched : Launch) :
    let s' := (tools.start abrmdOptions launched s).2
    instances abrmdOptions.isInstance s'.processes =
        active abrmdOptions.isInstance s'.processes ∧
      (active abrmdOptions.isInstance s'.processes).length ≤ 1 := by
  intro s'
  have hsame : instances abrmdOptions.isInstance s.processes =
      active abrmdOptions.isInstance s.processes := by
    rw [active_eq_filter]
    exact (List.filter_eq_self.mpr fun p hp => by rw [hsettled p hp]; rfl).symm
  by_cases hfinds : tools.finds abrmdOptions s = []
  · have hnone := active_of_finds_nil rfl hrecorded hfinds
    rw [show s'.processes = _ from tools.start_processes hfinds launched]
    cases launched.runs with
    | true =>
        rw [if_pos rfl, instances_launch, active_launch, hsame, hnone]
        refine ⟨rfl, ?_⟩
        split
        · simp
        · simp
    | false =>
        rw [if_neg Bool.false_ne_true, hsame, hnone]
        exact ⟨rfl, Nat.zero_le 1⟩
  · have hs' : s' = s := congrArg Prod.snd (tools.start_of_found hfinds launched)
    rw [hs']
    exact ⟨hsame, length_active_le_one hrecorded hdistinct⟩

/-- The start fails only where there is no daemon, and then none runs. -/
theorem active_of_failed (hrecorded : Recorded abrmdOptions s) {launched : Launch}
    (hstatus : (tools.start abrmdOptions launched s).1 ≠ 0) :
    active abrmdOptions.isInstance (tools.start abrmdOptions launched s).2.processes = [] := by
  by_cases hfinds : tools.finds abrmdOptions s = []
  · rw [tools.start_status hfinds] at hstatus
    rw [tools.start_processes hfinds]
    cases hruns : launched.runs with
    | true =>
        rw [hruns] at hstatus
        exact absurd rfl hstatus
    | false => exact active_of_finds_nil rfl hrecorded hfinds
  · rw [tools.start_of_found hfinds] at hstatus
    exact absurd rfl hstatus

/-- A pid file that lists all daemons is right if there is only one. -/
theorem recorded_of_listed
    (hsame : instances abrmdOptions.isInstance s.processes =
      active abrmdOptions.isInstance s.processes)
    (hone : (active abrmdOptions.isInstance s.processes).length ≤ 1)
    (hpidFile : s.pidFile = some (pidof.list (instances abrmdOptions.isInstance s.processes))) :
    Recorded abrmdOptions s := by
  intro p hp
  rw [hpidFile, hsame]
  match hactive : active abrmdOptions.isInstance s.processes, hone with
  | [], _ =>
      rw [hactive] at hp
      exact absurd hp List.not_mem_nil
  | [q], _ =>
      rw [hactive] at hp
      rw [List.mem_singleton.mp hp, pidof.list_singleton]

theorem abrmdStart_recorded (hdistinct : Distinct s) (hrecorded : Recorded abrmdOptions s)
    (hown : Own s) {launched : Launch} (hvisible : visible launched.pid = true)
    (hsettled : ∀ p ∈ instances abrmdOptions.isInstance s.processes, p.told = false) :
    Recorded abrmdOptions (abrmdStart tools pidof visible host launched s).2 := by
  unfold abrmdStart
  dsimp only
  split
  · exact hrecorded
  split
  · exact hrecorded
  split
  · obtain ⟨hsame, hone⟩ := instances_start tools hdistinct hrecorded hsettled launched
    rw [seen_eq_instances (own_start hown launched) hvisible]
    exact recorded_of_listed (s := { (tools.start abrmdOptions launched s).2 with
      pidFile := some (pidof.list (instances abrmdOptions.isInstance
        (tools.start abrmdOptions launched s).2.processes)) }) hsame hone rfl
  next hstatus => exact recorded_of_none (active_of_failed hrecorded hstatus)

theorem abrmdStart_distinct (hdistinct : Distinct s) {launched : Launch}
    (hfresh : launched.pid ∉ s.processes.map Process.pid) :
    Distinct (abrmdStart tools pidof visible host launched s).2 := by
  rcases abrmdStart_processes launched with heq | heq
  · rw [Distinct, heq]
    exact hdistinct
  · rw [Distinct, heq]
    exact start_distinct hdistinct hfresh

end

/-- What holds between two commands. -/
structure Orderly (s : State) : Prop where
  distinct : Distinct s
  recorded : Recorded abrmdOptions s
  own : Own s

section

variable {tools : Tools} {pidof : Pidof} {visible : Nat → Bool} {host : Host} {s : State}

/-- Where no process has the executable. -/
theorem orderly_of_absent (habsent : ∀ p ∈ s.processes, p.image.exec ≠ abrmdOptions.exec)
    (hdistinct : Distinct s) : Orderly s where
  distinct := hdistinct
  recorded := recorded_of_none (List.eq_nil_iff_forall_not_mem.mpr fun p hp =>
    habsent p ((mem_active ..).mp hp).1 (exec_of_isInstance ((mem_active ..).mp hp).2.1))
  own p hp hexec := absurd hexec (habsent p hp)

theorem Orderly.leave (h : Orderly s) (pids : List Nat) : Orderly (s.leave pids) :=
  ⟨leave_distinct h.distinct pids, leave_recorded h.recorded pids, own_leave h.own pids⟩

theorem Orderly.stop (h : Orderly s) : Orderly (abrmdStop tools host s).2 :=
  ⟨stopAndForget_distinct h.distinct, stopAndForget_recorded rfl h.recorded,
    own_abrmdStop h.own⟩

theorem Orderly.start (h : Orderly s) {launched : Launch}
    (hfresh : launched.pid ∉ s.processes.map Process.pid) (hvisible : visible launched.pid = true)
    (hsettled : ∀ p ∈ instances abrmdOptions.isInstance s.processes, p.told = false) :
    Orderly (abrmdStart tools pidof visible host launched s).2 :=
  ⟨abrmdStart_distinct h.distinct hfresh,
    abrmdStart_recorded h.distinct h.recorded h.own hvisible hsettled,
    own_abrmdStart h.own launched⟩

/-- Where all daemons have ended by then, none remains. -/
theorem instances_stopped (tools : Tools) {ended : List Nat}
    (hended : ∀ p ∈ instances abrmdOptions.isInstance s.processes, p.pid ∈ ended)
    (hexecutable : host.executable = true) :
    instances abrmdOptions.isInstance ((abrmdStop tools host s).2.leave ended).processes = [] := by
  rw [abrmdStop, stopAndForget_leave hexecutable, instances_leave, leave_eq_nil_iff,
    map_pid_instances_stop]
  exact List.forall_mem_map.mpr hended

theorem Orderly.perform (h : Orderly s) {action : Action} (hsettled : Settled visible s action) :
    Orderly ((abrmd tools pidof visible).perform action s) := by
  cases action with
  | start host launched => exact h.start hsettled.1 hsettled.2.1 hsettled.2.2
  | stop host => exact h.stop
  | reload host => exact h
  | restart host ended launched =>
      show Orderly (abrmdRestart tools pidof visible host ended launched s).2
      unfold abrmdRestart
      split
      · exact h
      next hexecutable =>
        have hnone := instances_stopped tools hsettled.2.2
          (show host.executable = true by simpa using hexecutable)
        refine (h.stop.leave ended).start (stopped_fresh hsettled.1) hsettled.2.1 fun p hp => ?_
        rw [hnone] at hp
        exact absurd hp List.not_mem_nil
  | leave pids => exact h.leave pids
  | other pid image =>
      have himage : abrmdOptions.isInstance image = false := by
        simp [Options.isInstance, hsettled.2]
      exact ⟨launch_distinct h.distinct hsettled.1 image, other_recorded h.recorded himage pid,
        own_launch h.own pid fun hexec => absurd hexec hsettled.2⟩

theorem after_abrmd (h : Orderly s) {actions : List Action}
    (hsettled : EachStep (abrmd tools pidof visible).perform (Settled visible) s actions) :
    Orderly (after (abrmd tools pidof visible).perform s actions) :=
  hsettled.invariant (I := Orderly) (fun hI hallowed => hI.perform hallowed) h

/-- What `restart` comes to: the pid file is gone when the daemon is started. -/
theorem abrmdRestart_eq (hexecutable : host.executable = true) (hdevices : host.devices ≠ [])
    (ended : List Nat) {launched : Launch} (hruns : launched.runs = true) :
    let processes := launch launched.pid ⟨abrmdOptions.exec, abrmdOptions.chuid⟩
      (Supervision.leave ended (tools.stop abrmdOptions s).2.processes)
    (abrmdRestart tools pidof visible host ended launched s).2 =
      ⟨processes, some (pidof.list (seen visible launched processes))⟩ := by
  intro processes
  let stopped : State := ⟨Supervision.leave ended (tools.stop abrmdOptions s).2.processes, none⟩
  have hforgotten : tools.finds abrmdOptions stopped = [] := finds_of_forgotten rfl rfl
  have hstatus : (tools.start abrmdOptions launched stopped).1 = 0 := by
    rw [tools.start_status hforgotten, hruns]
    rfl
  have hprocesses : (tools.start abrmdOptions launched stopped).2.processes = processes := by
    rw [tools.start_processes hforgotten, hruns]
    rfl
  have hrestart : abrmdRestart tools pidof visible host ended launched s =
      abrmdStart tools pidof visible host launched stopped := by
    rw [abrmdRestart, hexecutable, abrmdStop, stopAndForget_leave hexecutable]
    rfl
  rw [hrestart, ← hprocesses]
  simp only [abrmdStart, hexecutable, hdevices, List.isEmpty_iff, Bool.not_true,
    Bool.false_eq_true, if_false, hstatus, if_true]

/-- A pid file that begins with the new daemon, in the order of the table, is that of a daemon that
`pidof` sees and that is alone. -/
theorem visible_of_head_inOrder {old : List (Process Image)} {launched : Launch} {image : Image}
    (hfresh : launched.pid ∉ old.map Process.pid)
    (hhead : (Pidof.inOrder.list (seen visible launched
      (launch launched.pid image old))).head? = some launched.pid) :
    visible launched.pid = true ∧ ∀ p ∈ old, p.image.exec ≠ abrmdOptions.exec := by
  simp only [Pidof.inOrder, seen, launch, List.filter_append, List.map_append,
    List.head?_append] at hhead
  have hold : (old.filter fun p =>
      p.image.exec = abrmdOptions.exec && (p.pid != launched.pid || visible p.pid)) = [] := by
    cases hcase : old.filter fun p =>
        p.image.exec = abrmdOptions.exec && (p.pid != launched.pid || visible p.pid) with
    | nil => rfl
    | cons p rest =>
        have hp : p ∈ old := List.mem_of_mem_filter (hcase ▸ List.mem_cons_self)
        rw [hcase] at hhead
        have hpid : p.pid = launched.pid := by simpa using hhead
        exact absurd (hpid ▸ List.mem_map_of_mem hp) hfresh
  rw [hold] at hhead
  refine ⟨?_, fun p hp hexec => ?_⟩
  · cases hvisible : visible launched.pid with
    | true => rfl
    | false => simp [hvisible] at hhead
  · have hpid : p.pid ≠ launched.pid := fun h => hfresh (h ▸ List.mem_map_of_mem hp)
    have hnone := List.filter_eq_nil_iff.mp hold p hp
    rw [decide_eq_true hexec, bne_iff_ne.mpr hpid] at hnone
    exact hnone rfl

/-- After an orderly `restart` every `stop` reaches the daemon. -/
theorem active_stop_of_orderly (hexecutable : host.executable = true) (h : Orderly s) :
    active abrmdOptions.isInstance (abrmdStop tools host s).2.processes = [] := by
  rw [abrmdStop, stopAndForget, hexecutable]
  exact active_stop_of_recorded rfl h.recorded

end

/-- As long as every old tpm2-abrmd has ended before the next one is started, and `pidof` sees the
new one, there is at most one active daemon and the pid file names it. After such a run, the `stop`
that follows a `restart` is sure to reach the daemon, whichever number of a pid file counts and in
whatever order `pidof` lists the processes, exactly if `pidof` sees the new daemon and no old one
is left. -/
theorem abrmd_stop_after_restart (tools : Tools) (pidof : Pidof) {visible : Nat → Bool} {s : State}
    (habsent : ∀ p ∈ s.processes, p.image.exec ≠ abrmdOptions.exec) (hdistinct : Distinct s)
    {actions : List Action}
    (hsettled : EachStep (abrmd tools pidof visible).perform (Settled visible) s actions)
    {host : Host} (hexecutable : host.executable = true) (hdevices : host.devices ≠ []) :
    let s₁ := after (abrmd tools pidof visible).perform s actions
    (active abrmdOptions.isInstance s₁.processes).length ≤ 1 ∧ Recorded abrmdOptions s₁ ∧
      ∀ (ended : List Nat) (launched : Launch), launched.runs = true →
        launched.pid ∉ s₁.processes.map Process.pid →
          ((∀ (tools : Tools) (order : Pidof), active abrmdOptions.isInstance (abrmdStop tools host
              (abrmdRestart tools order visible host ended launched s₁).2).2.processes = []) ↔
            visible launched.pid = true ∧
              ∀ p ∈ instances abrmdOptions.isInstance s₁.processes, p.pid ∈ ended) := by
  intro s₁
  have h : Orderly s₁ := after_abrmd (orderly_of_absent habsent hdistinct) hsettled
  refine ⟨length_active_le_one h.recorded h.distinct, h.recorded,
    fun ended launched hruns hfresh => ?_⟩
  constructor
  · intro hall
    -- the first number counts, and the table lists the old daemons first
    have hreached := hall .firstPid .inOrder
    rw [abrmdRestart_eq hexecutable hdevices ended hruns, abrmdStop, stopAndForget,
      hexecutable] at hreached
    have hnew : abrmdOptions.isInstance ⟨abrmdOptions.exec, abrmdOptions.chuid⟩ = true := by
      decide
    have hhead := head_of_active_stop rfl rfl hreached
      ⟨launched.pid, ⟨abrmdOptions.exec, abrmdOptions.chuid⟩, false⟩
      ((mem_active ..).mpr ⟨List.mem_append_right _ List.mem_cons_self, hnew, rfl⟩)
    have hstopped : launched.pid ∉ (Supervision.leave ended
        (Tools.firstPid.stop abrmdOptions s₁).2.processes).map Process.pid := by
      intro hmem
      have hthere := List.map_subset Process.pid (List.filter_subset_self _) hmem
      rw [map_pid_stop] at hthere
      exact hfresh hthere
    obtain ⟨hvisible, hgone⟩ := visible_of_head_inOrder hstopped hhead
    refine ⟨hvisible, fun p hp => ?_⟩
    have hnone : instances abrmdOptions.isInstance (Supervision.leave ended
        (Tools.firstPid.stop abrmdOptions s₁).2.processes) = [] := by
      refine List.eq_nil_iff_forall_not_mem.mpr fun q hq => ?_
      obtain ⟨hq, hinstance⟩ := (mem_instances ..).mp hq
      exact hgone q hq (exec_of_isInstance hinstance)
    rw [instances_leave, leave_eq_nil_iff, map_pid_instances_stop] at hnone
    exact hnone p.pid (List.mem_map_of_mem hp)
  · intro hended tools order
    have hafter : Orderly ((abrmd tools order visible).perform
        (.restart host ended launched) s₁) := h.perform ⟨hfresh, hended⟩
    exact active_stop_of_orderly hexecutable hafter

/-- An old tpm2-abrmd that is still ending: the next `stop` may leave the new one running. -/
theorem abrmd_stop_misses :
    let host : Host := ⟨true, true, true, true, ["/dev/tpm0".toList], .ready⟩
    let visible : Nat → Bool := fun _ => true
    let s₁ := after (abrmd .firstPid .inOrder visible).perform ⟨[], none⟩
      [.start host ⟨7, true, 0⟩]
    ¬ ∀ (tools : Tools) (order : Pidof), active abrmdOptions.isInstance (abrmdStop tools host
      (abrmdRestart tools order visible host [] ⟨8, true, 0⟩ s₁).2).2.processes = [] := by
  intro host visible s₁ hall
  have hrun : EachStep (abrmd .firstPid .inOrder visible).perform (Settled visible) ⟨[], none⟩
      [.start host ⟨7, true, 0⟩] :=
    ⟨⟨List.not_mem_nil, rfl, fun p hp => absurd hp List.not_mem_nil⟩, trivial⟩
  obtain ⟨-, -, hiff⟩ := abrmd_stop_after_restart .firstPid .inOrder
    (fun p hp => absurd hp List.not_mem_nil) (show Distinct ⟨[], none⟩ from List.nodup_nil) hrun
    (show host.executable = true from rfl) (List.cons_ne_nil _ _)
  obtain ⟨-, hended⟩ := (hiff [] ⟨8, true, 0⟩ rfl (by decide)).mp hall
  exact absurd (hended ⟨7, ⟨abrmdOptions.exec, abrmdOptions.chuid⟩, false⟩ (by decide))
    List.not_mem_nil

end MetaSecurity.Services
