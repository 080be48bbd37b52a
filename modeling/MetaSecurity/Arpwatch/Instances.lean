import MetaSecurity.Arpwatch.Init
import MetaSecurity.Library.Traces

/-!
# Instances

The abstract view of the init script is a table with at most one process for every interface. The
state of the script is as the table says (`Represents`) as long as `awk` finds the name of an
interface in the lines of its own processes and in no others (`Separated`), and no interface is
started while a process of it is about to end (`Settled`). Every action keeps the two together
(`Represents.step`) and disturbs no instance, and so does every run (`run_undisturbed`).
-/

namespace MetaSecurity.Arpwatch

open Library Shell Traces

/-! ## The table -/

/-- The process that serves an interface. -/
abbrev Table := Text → Option Pid

/-- What an action should do: an interface that is served keeps its process, and another one gets
what is launched. -/
def Table.perform : Action → Table → Table
  | .start entry launched, table =>
      Function.update table entry.iface ((table entry.iface).or launched)
  | .stop entry, table => Function.update table entry.iface none
  | .exit _, table => table

/-- The process serves the interface. -/
def Process.serves (iface : Text) (process : Process) : Bool :=
  process.iface = iface && !process.signalled

/-- The processes that serve an interface. -/
def State.serving (s : State) (iface : Text) : List Pid :=
  (s.processes.filter (Process.serves iface)).map Process.pid

/-- The process after its interface was stopped. -/
def Process.stopFor (iface : Text) (process : Process) : Process :=
  if process.iface = iface then { process with signalled := true } else process

@[simp] theorem Process.stopFor_pid (iface : Text) (process : Process) :
    (process.stopFor iface).pid = process.pid := by
  rw [stopFor]
  split <;> rfl

@[simp] theorem Process.stopFor_iface (iface : Text) (process : Process) :
    (process.stopFor iface).iface = process.iface := by
  rw [stopFor]
  split <;> rfl

@[simp] theorem Process.stopFor_argv (iface : Text) (process : Process) :
    (process.stopFor iface).argv = process.argv := by
  rw [stopFor]
  split <;> rfl

/-- It does not serve its interface any more. -/
theorem Process.serves_stopFor (iface iface' : Text) (process : Process) :
    (process.stopFor iface).serves iface' = (process.serves iface' && iface' ≠ iface) := by
  by_cases hiface' : iface' = iface
  · subst hiface'
    by_cases hiface : process.iface = iface' <;> simp [stopFor, serves, hiface]
  · by_cases hiface : process.iface = iface
    · have hne : iface ≠ iface' := fun heq => hiface' heq.symm
      simp [stopFor, serves, hiface, hiface', hne]
    · simp [stopFor, serves, hiface, hiface']

/-- The state is as the table says: each interface is served by its process, which alone is in the
pid file, and all processes have been started for entries of the file. -/
structure Represents (settings : Settings) (entries : List Instance) (table : Table) (s : State) :
    Prop where
  serving : ∀ iface, s.serving iface = (table iface).toList
  pidFiles : ∀ iface, (s.pidFiles (pidFile iface)).getD [] = (table iface).toList
  distinct : (s.processes.map Process.pid).Nodup
  argv : ∀ process ∈ s.processes, ∃ entry ∈ entries,
    entry.iface = process.iface ∧ process.argv = settings.argv entry

/-! ## Conditions -/

/-- The name of an interface is found in the line of a process exactly if the process is one for
this interface. -/
def Separated (tools : Tools) (settings : Settings) (entries : List Instance) : Prop :=
  ∀ entry ∈ entries, ∀ other ∈ entries, ∀ pid,
    tools.selects entry.iface (tools.psLine pid (settings.argv other)) = true ↔
      entry.iface = other.iface

/-- When an interface is started, no process of it is still about to end. -/
def Settled (s : State) : Action → Prop
  | .start entry _ => ∀ process ∈ s.processes, process.iface = entry.iface →
      process.signalled = false
  | _ => True

/-- After `start_instance`, the pid file holds the process that serves the interface, if there is
one, and `stop_instance` signals the processes for its interface and no others. -/
def Undisturbed (tools : Tools) (settings : Settings) (s : State) : Action → Prop
  | .start entry launched => ∃ running : Option Pid,
      (startInstance tools settings entry launched s).serving entry.iface = running.toList ∧
      (startInstance tools settings entry launched s).pidFiles (pidFile entry.iface) =
        some running.toList
  | .stop entry =>
      (stopInstance tools entry s).processes = s.processes.map (Process.stopFor entry.iface)
  | .exit _ => True

variable {tools : Tools} {settings : Settings} {entries : List Instance} {table : Table}
  {s : State}

theorem eq_toList_of_perm {pids : List Pid} {running : Option Pid}
    (h : pids.Perm running.toList) : pids = running.toList := by
  cases running with
  | none => exact List.perm_nil.mp h
  | some pid => exact List.perm_singleton.mp h

/-- What `start-stop-daemon --start` finds is what the table has. -/
theorem Represents.finds (h : Represents settings entries table s) (iface : Text) :
    tools.finds ((s.pidFiles (pidFile iface)).getD []) (s.processes.map Process.pid) =
      (table iface).isSome := by
  have hserving := h.serving iface
  rw [h.pidFiles]
  cases htable : table iface with
  | none => exact tools.finds_nil _
  | some pid =>
      rw [htable] at hserving
      have hmem : pid ∈ s.processes.map Process.pid := by
        have hpid : pid ∈ s.serving iface := by simp [hserving]
        exact (List.filter_sublist.map Process.pid).subset hpid
      rw [Option.toList_some, tools.finds_singleton]
      simpa using hmem

/-! ## Starting -/

/-- A process of the script is selected by the name of its interface and by no other one. -/
theorem selected_eq (hsep : Separated tools settings entries) {entry : Instance}
    (hentry : entry ∈ entries) {processes : List Process}
    (hargv : ∀ process ∈ processes, ∃ other ∈ entries,
      other.iface = process.iface ∧ process.argv = settings.argv other)
    (hsettled : ∀ process ∈ processes, process.iface = entry.iface → process.signalled = false) :
    selected tools entry.iface processes =
      (processes.filter (Process.serves entry.iface)).map Process.pid := by
  refine congrArg (List.map Process.pid) (List.filter_congr fun process hprocess => ?_)
  obtain ⟨other, hother, hiface, hline⟩ := hargv process hprocess
  have hselects := hsep entry hentry other hother process.pid
  rw [← hline, hiface] at hselects
  rw [Bool.eq_iff_iff, hselects, Process.serves, Bool.and_eq_true, decide_eq_true_eq,
    Bool.not_eq_true']
  exact ⟨fun heq => ⟨heq.symm, hsettled process hprocess heq.symm⟩, fun hserves => hserves.1.symm⟩

/-- The process that is launched, if any. -/
def newProcess (settings : Settings) (entry : Instance) (table : Table) (launched : Option Pid) :
    List Process :=
  (if (table entry.iface).isSome then none else launched).toList.map fun pid =>
    ⟨pid, entry.iface, settings.argv entry, false⟩

theorem Represents.startDaemon_perm (h : Represents settings entries table s) (tools : Tools)
    (entry : Instance) (launched : Option Pid) : (startDaemon tools settings entry launched s).Perm
      (newProcess settings entry table launched ++ s.processes) := by
  rw [startDaemon.eq_def, h.finds, newProcess]
  cases (table entry.iface).isSome with
  | true => exact .refl _
  | false =>
      cases launched with
      | none => exact .refl _
      | some pid => exact List.perm_orderedInsert ..

/-- The launched process serves its interface. -/
theorem map_pid_newProcess (settings : Settings) (entry : Instance) (table : Table)
    (launched : Option Pid) (iface : Text) :
    ((newProcess settings entry table launched).filter (Process.serves iface)).map Process.pid ++
      (table iface).toList = (Table.perform (.start entry launched) table iface).toList := by
  by_cases hiface : iface = entry.iface
  · subst hiface
    cases htable : table entry.iface <;> cases launched <;>
      simp [newProcess, Table.perform, Process.serves, htable]
  · have hne : entry.iface ≠ iface := fun heq => hiface heq.symm
    cases htable : table entry.iface <;> cases launched <;>
      simp [newProcess, Table.perform, Process.serves, htable, hne, Function.update_of_ne hiface]

theorem nodup_newProcess (settings : Settings) (entry : Instance) (table : Table)
    (launched : Option Pid) :
    ((newProcess settings entry table launched).map Process.pid).Nodup := by
  rw [newProcess]
  cases (if (table entry.iface).isSome then none else launched) <;> simp

theorem mem_newProcess {entry : Instance} {launched : Option Pid} {process : Process}
    (h : process ∈ newProcess settings entry table launched) : process.iface = entry.iface ∧
      process.argv = settings.argv entry ∧ process.signalled = false ∧ process.pid ∈ launched := by
  obtain ⟨pid, hpid, rfl⟩ := List.mem_map.mp h
  refine ⟨rfl, rfl, rfl, ?_⟩
  cases hsome : (table entry.iface).isSome <;> simp_all

/-- A launched process brings a pid of its own. -/
theorem Represents.startDaemon_distinct (h : Represents settings entries table s) (tools : Tools)
    {entry : Instance} {launched : Option Pid} (hpossible : Possible s (.start entry launched)) :
    ((startDaemon tools settings entry launched s).map Process.pid).Nodup := by
  refine ((h.startDaemon_perm tools entry launched).map _).nodup_iff.mpr ?_
  rw [List.map_append]
  refine List.Nodup.append (nodup_newProcess settings entry table launched) h.distinct ?_
  intro pid hlaunched hold
  obtain ⟨process, hprocess, rfl⟩ := List.mem_map.mp hlaunched
  exact hpossible _ (mem_newProcess hprocess).2.2.2 hold

/-- Starting an instance does what the table says, provided that the interface is settled and its
name is found in its own lines only. -/
theorem Represents.start (h : Represents settings entries table s)
    (hsep : Separated tools settings entries) {entry : Instance} (hentry : entry ∈ entries)
    {launched : Option Pid} (hpossible : Possible s (.start entry launched))
    (hsettled : Settled s (.start entry launched)) :
    Represents settings entries (Table.perform (.start entry launched) table)
        (startInstance tools settings entry launched s) ∧
      Undisturbed tools settings s (.start entry launched) := by
  have hperm := h.startDaemon_perm tools entry launched
  have hmem : ∀ process ∈ startDaemon tools settings entry launched s,
      process ∈ newProcess settings entry table launched ∨ process ∈ s.processes :=
    fun process hprocess => List.mem_append.mp (hperm.mem_iff.mp hprocess)
  have hargv : ∀ process ∈ startDaemon tools settings entry launched s, ∃ other ∈ entries,
      other.iface = process.iface ∧ process.argv = settings.argv other := by
    intro process hprocess
    rcases hmem process hprocess with hlaunched | hold
    · obtain ⟨hiface, hline, -⟩ := mem_newProcess hlaunched
      exact ⟨entry, hentry, hiface.symm, hline⟩
    · exact h.argv process hold
  -- An interface has at most one process that serves it, so the order of the pids is no matter.
  have hserving : ∀ iface, ((startDaemon tools settings entry launched s).filter
      (Process.serves iface)).map Process.pid =
        (Table.perform (.start entry launched) table iface).toList := by
    intro iface
    refine eq_toList_of_perm (((hperm.filter _).map _).trans ?_)
    rw [List.filter_append, List.map_append, ← map_pid_newProcess settings,
      ← h.serving iface]
    exact .refl _
  have hselected : selected tools entry.iface (startDaemon tools settings entry launched s) =
      (Table.perform (.start entry launched) table entry.iface).toList := by
    rw [selected_eq hsep hentry hargv fun process hprocess hiface => ?_, hserving]
    rcases hmem process hprocess with hlaunched | hold
    · exact (mem_newProcess hlaunched).2.2.1
    · exact hsettled process hold hiface
  refine ⟨⟨hserving, fun iface => ?_, h.startDaemon_distinct tools hpossible, hargv⟩, _,
    hserving entry.iface, ?_⟩
  · by_cases hiface : iface = entry.iface
    · rw [hiface, startInstance_pidFiles_self, hselected, Option.getD_some]
    · rw [startInstance_pidFiles_of_ne _ _ _ _ _ hiface, h.pidFiles, Table.perform,
        Function.update_of_ne hiface]
  · rw [startInstance_pidFiles_self, hselected]

/-- A start that disturbs no instance finds its interface settled: a process of the interface that
has been signalled is selected as well, but serves it no more. -/
theorem Represents.settled_of_start (h : Represents settings entries table s)
    (hsep : Separated tools settings entries) {entry : Instance} (hentry : entry ∈ entries)
    {launched : Option Pid} (hpossible : Possible s (.start entry launched))
    (hundisturbed : Undisturbed tools settings s (.start entry launched)) :
    Settled s (.start entry launched) := by
  intro process hprocess hiface
  obtain ⟨running, hserving, hfile⟩ := hundisturbed
  rw [startInstance_pidFiles_self, Option.some_inj] at hfile
  have hperm := h.startDaemon_perm tools entry launched
  have hmem : process ∈ startDaemon tools settings entry launched s :=
    hperm.mem_iff.mpr (List.mem_append_right _ hprocess)
  obtain ⟨other, hother, hsame, hline⟩ := h.argv process hprocess
  have hselects : tools.selects entry.iface (tools.psLine process.pid process.argv) = true := by
    rw [hline]
    exact (hsep entry hentry other hother _).mpr (hiface.symm.trans hsame.symm)
  -- The pid file has its pid, which therefore is the pid of a process that serves.
  have hpid : process.pid ∈ (startInstance tools settings entry launched s).serving
      entry.iface := by
    rw [hserving, ← hfile]
    exact List.mem_map_of_mem (List.mem_filter.mpr ⟨hmem, hselects⟩)
  obtain ⟨serving, hserves, heq⟩ := List.mem_map.mp hpid
  obtain ⟨hserving', hserves⟩ := List.mem_filter.mp hserves
  have hdistinct := h.startDaemon_distinct tools hpossible
  rw [List.inj_on_of_nodup_map hdistinct hserving' hmem heq, Process.serves] at hserves
  simpa using (Bool.and_eq_true_iff.mp hserves).2

/-! ## Stopping -/

/-- A pid belongs to one process, so it is the table's pid exactly if that process serves the
interface. -/
theorem Represents.pid_mem_iff (h : Represents settings entries table s) (iface : Text)
    {process : Process} (hprocess : process ∈ s.processes) :
    process.pid ∈ (table iface).toList ↔ process.serves iface = true := by
  rw [← h.serving, State.serving, List.mem_map]
  constructor
  · rintro ⟨other, hother, hpid⟩
    obtain ⟨hmem, hserves⟩ := List.mem_filter.mp hother
    rwa [List.inj_on_of_nodup_map h.distinct hprocess hmem hpid.symm]
  · exact fun hserves => ⟨process, List.mem_filter.mpr ⟨hprocess, hserves⟩, rfl⟩

/-- To signal the table's process is to signal all processes for the interface, as the others have
been signalled before. -/
theorem Represents.signal_eq (h : Represents settings entries table s) (iface : Text) :
    signal (table iface).toList s.processes = s.processes.map (Process.stopFor iface) := by
  refine List.map_congr_left fun process hprocess => ?_
  have hcontains : (table iface).toList.contains process.pid = process.serves iface := by
    rw [Bool.eq_iff_iff, List.contains_iff_mem, h.pid_mem_iff iface hprocess]
  rw [hcontains, Process.serves, Process.stopFor]
  cases process with
  | mk pid iface' argv signalled => cases signalled <;> simp

theorem signals_toList (tools : Tools) (running : Option Pid) :
    tools.signals running.toList = running.toList := by
  cases running with
  | none => exact tools.signals_nil
  | some pid => exact tools.signals_singleton pid

theorem signal_nil (processes : List Process) : signal [] processes = processes :=
  List.map_id processes

/-- What `stop_instance` does to the processes. -/
theorem Represents.stopInstance_processes (h : Represents settings entries table s)
    (tools : Tools) (entry : Instance) :
    (stopInstance tools entry s).processes = s.processes.map (Process.stopFor entry.iface) := by
  have hfile := h.pidFiles entry.iface
  rw [← h.signal_eq, stopInstance]
  cases hpids : s.pidFiles (pidFile entry.iface) with
  | none =>
      rw [hpids, Option.getD_none] at hfile
      rw [← hfile, signal_nil]
  | some pids =>
      rw [hpids, Option.getD_some] at hfile
      subst hfile
      exact congrArg (signal · s.processes) (signals_toList tools _)

/-- The pid file is removed, if there is one. -/
theorem stopInstance_pidFiles (tools : Tools) (entry : Instance) (s : State) :
    (stopInstance tools entry s).pidFiles =
      Function.update s.pidFiles (pidFile entry.iface) none := by
  rw [stopInstance]
  cases hpids : s.pidFiles (pidFile entry.iface) with
  | none => exact (Function.update_eq_self_iff.mpr hpids.symm).symm
  | some pids => rfl

/-- Stopping an instance does what the table says. -/
theorem Represents.stop (h : Represents settings entries table s) (entry : Instance) :
    Represents settings entries (Table.perform (.stop entry) table) (stopInstance tools entry s) ∧
      Undisturbed tools settings s (.stop entry) := by
  have hprocesses := h.stopInstance_processes tools entry
  refine ⟨⟨fun iface => ?_, fun iface => ?_, ?_, ?_⟩, hprocesses⟩
  · have hserving := h.serving iface
    rw [State.serving] at hserving
    rw [State.serving, hprocesses, List.filter_map, List.map_map, Table.perform]
    by_cases hiface : iface = entry.iface
    · have hnone : (Process.serves iface ∘ Process.stopFor entry.iface) = fun _ => false := by
        funext process
        simp [Process.serves_stopFor, hiface]
      rw [hnone, hiface, Function.update_self]
      simp
    · have hsame : (Process.serves iface ∘ Process.stopFor entry.iface) = Process.serves iface := by
        funext process
        simp [Process.serves_stopFor, hiface]
      rw [hsame, Function.update_of_ne hiface, ← hserving]
      simp
  · rw [stopInstance_pidFiles, Table.perform]
    by_cases hiface : iface = entry.iface
    · rw [hiface, Function.update_self, Function.update_self]
      rfl
    · have hne : pidFile iface ≠ pidFile entry.iface := fun heq => hiface (pidFile_inj.mp heq)
      rw [Function.update_of_ne hne, Function.update_of_ne hiface]
      exact h.pidFiles iface
  · rw [hprocesses, List.map_map]
    simpa [Function.comp_def] using h.distinct
  · rw [hprocesses, List.forall_mem_map]
    simpa using h.argv

/-! ## Ending -/

/-- A process that ends has stopped serving its interface before. -/
theorem Represents.exit (h : Represents settings entries table s) {pid : Pid}
    (hpossible : Possible s (.exit pid)) :
    Represents settings entries table (perform tools settings (.exit pid) s) := by
  obtain ⟨ending, hending, hpid, hsignalled⟩ := hpossible
  refine ⟨fun iface => ?_, h.pidFiles, ?_, fun process hprocess => ?_⟩
  · have hsame : (s.processes.filter fun process => process.pid ≠ pid).filter
        (Process.serves iface) = s.processes.filter (Process.serves iface) := by
      rw [List.filter_filter]
      refine List.filter_congr fun process hprocess => ?_
      by_cases heq : process.pid = pid
      · rw [List.inj_on_of_nodup_map h.distinct hprocess hending (heq.trans hpid.symm)]
        simp [Process.serves, hsignalled]
      · simp [heq]
    rw [← h.serving]
    exact congrArg (List.map Process.pid) hsame
  · exact h.distinct.sublist (List.filter_sublist.map Process.pid)
  · exact h.argv process (List.mem_of_mem_filter hprocess)

/-! ## Whole runs -/

theorem represents_initial (settings : Settings) (entries : List Instance) :
    Represents settings entries (fun _ => none) State.initial where
  serving _ := rfl
  pidFiles _ := rfl
  distinct := List.nodup_nil
  argv := by simp [State.initial]

/-- An action of the script is for an entry of the file. -/
def Action.ForEntry (entries : List Instance) : Action → Prop
  | .start entry _ => entry ∈ entries
  | .stop entry => entry ∈ entries
  | .exit _ => True

/-- A possible action follows the table and disturbs no instance. -/
theorem Represents.step (h : Represents settings entries table s)
    (hsep : Separated tools settings entries) {action : Action} (hentry : action.ForEntry entries)
    (hpossible : Possible s action) (hsettled : Settled s action) :
    Represents settings entries (Table.perform action table) (perform tools settings action s) ∧
      Undisturbed tools settings s action := by
  cases action with
  | start entry launched => exact h.start hsep hentry hpossible hsettled
  | stop entry => exact h.stop entry
  | exit pid => exact ⟨h.exit hpossible, trivial⟩

theorem Represents.settled_of_undisturbed (h : Represents settings entries table s)
    (hsep : Separated tools settings entries) {action : Action} (hentry : action.ForEntry entries)
    (hpossible : Possible s action) (hundisturbed : Undisturbed tools settings s action) :
    Settled s action := by
  cases action with
  | start entry launched => exact h.settled_of_start hsep hentry hpossible hundisturbed
  | stop entry => trivial
  | exit pid => trivial

theorem Command.entry_mem {command : Command} {call : Call} (h : call ∈ command.calls entries) :
    call.entry ∈ entries := by
  have hmap : ∀ f : Instance → Call, (∀ entry, (f entry).entry = entry) →
      call ∈ entries.map f → call.entry ∈ entries := by
    intro f hf hmem
    obtain ⟨entry, hentry, rfl⟩ := List.mem_map.mp hmem
    rwa [hf]
  cases command with
  | start => exact hmap _ (fun _ => rfl) h
  | stop => exact hmap _ (fun _ => rfl) h
  | restart =>
      rcases List.mem_append.mp h with hstop | hstart
      · exact hmap _ (fun _ => rfl) hstop
      · exact hmap _ (fun _ => rfl) hstart

theorem forEntry_of_follows {commands : List Command} {actions : List Action}
    (h : Follows entries commands actions) {action : Action} (haction : action ∈ actions) :
    action.ForEntry entries := by
  have hentry : ∀ call, action.call = some call → call.entry ∈ entries := by
    intro call hcall
    have hmem : call ∈ commands.flatMap (Command.calls entries) := by
      rw [← h]
      exact List.mem_filterMap.mpr ⟨action, haction, hcall⟩
    obtain ⟨command, -, hcommand⟩ := List.mem_flatMap.mp hmem
    exact command.entry_mem hcommand
  cases action with
  | start entry launched => exact hentry _ rfl
  | stop entry => exact hentry _ rfl
  | exit pid => trivial

/-- In a run of the script with settled interfaces, no instance is disturbed, and the state is
always as the table says. -/
theorem run_undisturbed (hsep : Separated tools settings entries) {commands : List Command}
    {actions : List Action} (hfollows : Follows entries commands actions)
    (hrun : EachStep (perform tools settings) (fun s action => Possible s action ∧
      Settled s action) .initial actions) :
    EachStep (perform tools settings) (Undisturbed tools settings) .initial actions ∧
      Represents settings entries (after Table.perform (fun _ => none) actions)
        (after (perform tools settings) .initial actions) :=
  EachStep.of_simulation (fun hrepresents haction hallowed =>
    hrepresents.step hsep (forEntry_of_follows hfollows haction) hallowed.1 hallowed.2)
    (represents_initial settings entries) hrun

/-- Where names are separated, a possible run disturbs no instance exactly if each interface is
settled when it is started. -/
theorem run_undisturbed_iff (hsep : Separated tools settings entries) {commands : List Command}
    {actions : List Action} (hfollows : Follows entries commands actions)
    (hpossible : EachStep (perform tools settings) Possible .initial actions) :
    EachStep (perform tools settings) (Undisturbed tools settings) .initial actions ↔
      EachStep (perform tools settings) Settled .initial actions := by
  constructor
  · intro hundisturbed
    have hboth : EachStep (perform tools settings) Settled .initial actions ∧
        Represents settings entries (after Table.perform (fun _ => none) actions)
          (after (perform tools settings) .initial actions) := by
      refine EachStep.of_simulation (fun hrepresents haction hallowed => ?_)
        (represents_initial settings entries) (eachStep_and.mpr ⟨hpossible, hundisturbed⟩)
      have hentry := forEntry_of_follows hfollows haction
      have hsettled := hrepresents.settled_of_undisturbed hsep hentry hallowed.1 hallowed.2
      exact ⟨(hrepresents.step hsep hentry hallowed.1 hsettled).1, hsettled⟩
    exact hboth.1
  · exact fun hsettled => (run_undisturbed hsep hfollows (eachStep_and.mpr ⟨hpossible, hsettled⟩)).1

end MetaSecurity.Arpwatch
