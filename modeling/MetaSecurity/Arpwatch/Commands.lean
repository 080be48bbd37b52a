import MetaSecurity.Arpwatch.Separation

/-!
# What the last command of a run leads to

The calls of a command come one after the other, and processes end in between. Where no instance is
disturbed, only the last command counts: after `stop` every process has been signalled and every pid
file is gone, and after `start` or `restart` every interface is served by the process in its pid
file.
-/

namespace MetaSecurity.Arpwatch

open Library Shell Traces

variable {tools : Tools} {settings : Settings} {entries : List Instance}

/-! ## The calls of a command -/

/-- Where the calls of a run end with some, the run ends with their actions. -/
theorem exists_back {actions : List Action} {first last : List Call}
    (h : actions.filterMap Action.call = first ++ last) :
    ∃ front back, actions = front ++ back ∧ back.filterMap Action.call = last := by
  obtain ⟨front, back, hactions, -, hback⟩ := List.filterMap_eq_append_iff.mp h
  exact ⟨front, back, hactions, hback⟩

/-- What `start-stop-daemon` launches is a process. -/
def Action.Launches : Action → Prop
  | .start _ launched => launched.isSome = true
  | _ => True

section

variable {stopped : List Instance} {back : List Action}

/-- After its instance was stopped, an interface is not served. -/
theorem table_after_stops (h : back.filterMap Action.call = stopped.map .stopInstance)
    (table : Table) (iface : Text) :
    after Table.perform table back iface =
      if iface ∈ stopped.map Instance.iface then none else table iface := by
  induction back generalizing stopped table with
  | nil =>
      have hnil : stopped = [] := List.map_eq_nil_iff.mp h.symm
      simp [hnil]
  | cons action back ih =>
      cases action with
      | start entry launched =>
          cases stopped with
          | nil => cases h
          | cons other stopped => cases (List.cons.inj h).1
      | stop entry =>
          cases stopped with
          | nil => cases h
          | cons other stopped =>
              obtain ⟨hentry, hrest⟩ := List.cons.inj h
              cases hentry
              rw [after_cons, ih hrest, Table.perform]
              by_cases hiface : iface = entry.iface
              · simp [hiface]
              · simp [hiface]
      | exit pid =>
          rw [after_cons]
          exact ih h table

/-- And its pid file is gone. -/
theorem pidFiles_after_stops (h : back.filterMap Action.call = stopped.map .stopInstance)
    {s : State} {entry : Instance}
    (hentry : entry ∈ stopped ∨ s.pidFiles (pidFile entry.iface) = none) :
    (after (perform tools settings) s back).pidFiles (pidFile entry.iface) = none := by
  induction back generalizing stopped s with
  | nil =>
      have hnil : stopped = [] := List.map_eq_nil_iff.mp h.symm
      rw [hnil] at hentry
      exact hentry.resolve_left List.not_mem_nil
  | cons action back ih =>
      rw [after_cons]
      cases action with
      | start other launched =>
          cases stopped with
          | nil => cases h
          | cons first stopped => cases (List.cons.inj h).1
      | stop other =>
          cases stopped with
          | nil => cases h
          | cons first stopped =>
              obtain ⟨hfirst, hrest⟩ := List.cons.inj h
              cases hfirst
              refine ih hrest ?_
              show entry ∈ stopped ∨ (stopInstance tools other s).pidFiles _ = none
              rw [stopInstance_pidFiles]
              by_cases hiface : entry.iface = other.iface
              · rw [hiface, Function.update_self]
                exact Or.inr rfl
              · have hne : pidFile entry.iface ≠ pidFile other.iface := fun heq =>
                  hiface (pidFile_inj.mp heq)
                rw [Function.update_of_ne hne]
                refine hentry.imp_left fun hmem => ?_
                rcases List.mem_cons.mp hmem with heq | hlater
                · exact absurd (congrArg Instance.iface heq) hiface
                · exact hlater
      | exit pid => exact ih h hentry

variable {started : List Instance}

/-- After its instance was started, an interface is served. -/
theorem table_after_starts (h : back.filterMap Action.call = started.map .startInstance)
    (hlaunches : ∀ action ∈ back, action.Launches) {table : Table} {entry : Instance}
    (hentry : entry ∈ started ∨ (table entry.iface).isSome = true) :
    (after Table.perform table back entry.iface).isSome = true := by
  induction back generalizing started table with
  | nil =>
      have hnil : started = [] := List.map_eq_nil_iff.mp h.symm
      rw [hnil] at hentry
      exact hentry.resolve_left List.not_mem_nil
  | cons action back ih =>
      have hlater : ∀ action ∈ back, action.Launches := fun other hother =>
        hlaunches other (List.mem_cons_of_mem _ hother)
      rw [after_cons]
      cases action with
      | start other launched =>
          cases started with
          | nil => cases h
          | cons first started =>
              obtain ⟨hfirst, hrest⟩ := List.cons.inj h
              cases hfirst
              have hlaunched : launched.isSome = true := hlaunches _ List.mem_cons_self
              refine ih hrest hlater ?_
              rw [Table.perform]
              by_cases hiface : entry.iface = other.iface
              · rw [hiface, Function.update_self]
                exact Or.inr (by simp [hlaunched])
              · rw [Function.update_of_ne hiface]
                refine hentry.imp_left fun hmem => ?_
                rcases List.mem_cons.mp hmem with heq | hmem
                · exact absurd (congrArg Instance.iface heq) hiface
                · exact hmem
      | stop other =>
          cases started with
          | nil => cases h
          | cons first started => cases (List.cons.inj h).1
      | exit pid => exact ih h hlater hentry

end

/-! ## The last command -/

/-- Where no interface is served, every process has been signalled. -/
theorem Represents.signalled {table : Table} {s : State} (h : Represents settings entries table s)
    (hnone : ∀ entry ∈ entries, table entry.iface = none) :
    ∀ process ∈ s.processes, process.signalled = true := by
  intro process hprocess
  obtain ⟨entry, hentry, hiface, -⟩ := h.argv process hprocess
  cases hsignalled : process.signalled with
  | true => rfl
  | false =>
      have hserves : process.pid ∈ s.serving process.iface := by
        refine List.mem_map_of_mem (List.mem_filter.mpr ⟨hprocess, ?_⟩)
        simp [Process.serves, hsignalled]
      rw [h.serving, ← hiface, hnone entry hentry] at hserves
      exact absurd hserves List.not_mem_nil

/-- After any run of the script with settled interfaces, whatever happened before the last command:
if that was `stop`, every process that is left has been signalled and no interface has a pid file;
if it was another one and `start-stop-daemon` launched what it was to launch, each interface is
served by one process, and its pid file holds this process alone. -/
theorem last_command (hsep : Separated tools settings entries) {commands : List Command}
    {last : Command} {actions : List Action}
    (hfollows : Follows entries (commands ++ [last]) actions)
    (hrun : EachStep (perform tools settings) (fun s action => Possible s action ∧
      Settled s action) .initial actions) :
    let s := after (perform tools settings) .initial actions
    (last = .stop → (∀ process ∈ s.processes, process.signalled = true) ∧
        ∀ entry ∈ entries, s.pidFiles (pidFile entry.iface) = none) ∧
      (last ≠ .stop → (∀ action ∈ actions, action.Launches) → ∀ entry ∈ entries, ∃ pid,
        s.serving entry.iface = [pid] ∧ s.pidFiles (pidFile entry.iface) = some [pid]) := by
  intro s
  obtain ⟨-, hrepresents⟩ := run_undisturbed hsep hfollows hrun
  have hcalls : actions.filterMap Action.call =
      commands.flatMap (Command.calls entries) ++ last.calls entries := by
    rw [show actions.filterMap Action.call = _ from hfollows, List.flatMap_append,
      List.flatMap_singleton]
  refine ⟨fun hstop => ?_, fun hstart hlaunches entry hentry => ?_⟩
  · rw [hstop] at hcalls
    obtain ⟨front, back, hactions, hback⟩ := exists_back hcalls
    constructor
    · refine hrepresents.signalled fun entry hentry => ?_
      rw [hactions, after_append, table_after_stops hback,
        if_pos (List.mem_map_of_mem hentry)]
    · intro entry hentry
      show (after (perform tools settings) .initial actions).pidFiles _ = none
      rw [hactions, after_append]
      exact pidFiles_after_stops hback (Or.inl hentry)
  · -- the last calls start the instances
    have hstarts : ∃ first, actions.filterMap Action.call =
        first ++ entries.map .startInstance := by
      cases last with
      | start => exact ⟨_, hcalls⟩
      | stop => exact absurd rfl hstart
      | restart => exact ⟨_, hcalls.trans (List.append_assoc ..).symm⟩
    obtain ⟨first, hfirst⟩ := hstarts
    obtain ⟨front, back, hactions, hback⟩ := exists_back hfirst
    have hserved : (after Table.perform (fun _ => none) actions entry.iface).isSome = true := by
      rw [hactions, after_append]
      exact table_after_starts hback (fun action haction => hlaunches action (by
        rw [hactions]
        exact List.mem_append_right _ haction)) (Or.inl hentry)
    obtain ⟨pid, hpid⟩ := Option.isSome_iff_exists.mp hserved
    have hserving := hrepresents.serving entry.iface
    have hpidFile := hrepresents.pidFiles entry.iface
    rw [hpid] at hserving hpidFile
    refine ⟨pid, hserving, ?_⟩
    show (after (perform tools settings) .initial actions).pidFiles (pidFile entry.iface) = _
    cases hfile : (after (perform tools settings) .initial actions).pidFiles
        (pidFile entry.iface) with
    | none =>
        rw [hfile] at hpidFile
        cases hpidFile
    | some pids =>
        rw [hfile] at hpidFile
        exact congrArg some hpidFile

/-- An interface that is started and restarted, while the old process ends in between. -/
theorem last_command_restart :
    let actions := [Action.start eth10 (some 100), .stop eth10, .exit 100, .start eth10 (some 101)]
    let s := after (perform .firstPid .installed) .initial actions
    ∃ pid, s.serving eth10.iface = [pid] ∧ s.pidFiles (pidFile eth10.iface) = some [pid] := by
  intro actions s
  have hplain : ∀ entry ∈ [eth10], isPlainName entry.iface = true := by
    simp only [List.forall_mem_singleton]
    decide +kernel
  have hsep : Separated .firstPid .installed [eth10] := by
    rw [separated_iff_of_plain hplain]
    simp only [List.forall_mem_singleton]
    exact fun _ => trivial
  have hfollows : Follows [eth10] ([.start] ++ [.restart]) actions := rfl
  have hstopped : (after (perform .firstPid .installed) .initial
      [.start eth10 (some 100), .stop eth10]).processes =
      [⟨100, eth10.iface, Settings.installed.argv eth10, true⟩] := by
    decide +kernel
  have hexited : (after (perform .firstPid .installed) .initial
      [.start eth10 (some 100), .stop eth10, .exit 100]).processes = [] := by
    decide +kernel
  have hrun : EachStep (perform .firstPid .installed) (fun s action => Possible s action ∧
      Settled s action) .initial actions := by
    refine ⟨⟨?_, ?_⟩, ⟨trivial, trivial⟩, ⟨?_, trivial⟩, ⟨?_, ?_⟩, trivial⟩
    · simp [Possible, State.initial]
    · simp [Settled, State.initial]
    · exact ⟨_, List.mem_of_mem_head? (congrArg List.head? hstopped), rfl, rfl⟩
    · exact fun pid _ hpid => List.not_mem_nil (hexited ▸ hpid)
    · exact fun process hprocess => absurd (hexited ▸ hprocess) List.not_mem_nil
  obtain ⟨-, hstarted⟩ := last_command hsep hfollows hrun
  exact hstarted (by decide) (by simp [actions, Action.Launches]) eth10 List.mem_cons_self

end MetaSecurity.Arpwatch
