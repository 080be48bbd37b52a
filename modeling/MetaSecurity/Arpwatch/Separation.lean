import MetaSecurity.Arpwatch.Instances
import Mathlib.Data.List.Infix

/-!
# Separation

Names that are found where they should be are what keeps the instances apart: `undisturbed_iff` says
that the runs of the script need no more than that, and no less. With `eth1` and `eth10` it is not
so: what `awk` prints for `eth1` are the processes of both.
-/

namespace MetaSecurity.Arpwatch

open Library Shell Traces

variable {tools : Tools} {settings : Settings} {entries : List Instance} {s : State}

/-! ## The condition is necessary -/

/-- A start at which nothing can be launched. -/
def idle (entry : Instance) : Action := .start entry none

theorem startDaemon_none (tools : Tools) (settings : Settings) (entry : Instance) (s : State) :
    startDaemon tools settings entry none s = s.processes := by
  rw [startDaemon.eq_def]
  split <;> rfl

theorem after_idle_processes (idles : List Instance) (s : State) :
    (after (perform tools settings) s (idles.map idle)).processes = s.processes := by
  induction idles generalizing s with
  | nil => rfl
  | cons entry idles ih =>
      exact (ih (perform tools settings (idle entry) s)).trans
        (startDaemon_none tools settings entry s)

/-- Without processes, the pid files stay empty. -/
theorem after_idle_pidFiles (tools : Tools) (settings : Settings) (idles : List Instance)
    {s : State} (hprocesses : s.processes = [])
    (hfiles : ∀ file, (s.pidFiles file).getD [] = []) (file : Text) :
    ((after (perform tools settings) s (idles.map idle)).pidFiles file).getD [] = [] := by
  induction idles generalizing s with
  | nil => exact hfiles file
  | cons entry idles ih =>
      have hnone : startDaemon tools settings entry none s = [] :=
        (startDaemon_none tools settings entry s).trans hprocesses
      refine ih hnone fun file => ?_
      change (Function.update s.pidFiles (pidFile entry.iface) (some (selected tools entry.iface
        (startDaemon tools settings entry none s))) file).getD [] = []
      rw [hnone, Function.update_apply]
      split
      · rfl
      · exact hfiles file

/-- Idle starts are possible, and settled as long as no process has been signalled. -/
theorem eachStep_idle (idles : List Instance) {s : State}
    (h : ∀ process ∈ s.processes, process.signalled = false) :
    EachStep (perform tools settings) (fun s action => Possible s action ∧ Settled s action) s
      (idles.map idle) := by
  induction idles generalizing s with
  | nil => trivial
  | cons entry idles ih =>
      refine ⟨⟨by simp [idle, Possible], fun process hprocess _ => h process hprocess⟩, ih ?_⟩
      change ∀ process ∈ startDaemon tools settings entry none s, process.signalled = false
      rwa [startDaemon_none]

theorem startDaemon_first (tools : Tools) (settings : Settings) (entry : Instance) (pid : Pid)
    (hprocesses : s.processes = []) (hfiles : ∀ file, (s.pidFiles file).getD [] = []) :
    startDaemon tools settings entry (some pid) s =
      [⟨pid, entry.iface, settings.argv entry, false⟩] := by
  rw [startDaemon.eq_def, hfiles, hprocesses, tools.finds_nil]
  rfl

/-- Where a start leaves a single process and disturbs no instance, the process is selected exactly
if it serves the interface. -/
theorem selects_of_single {entry : Instance} {launched : Option Pid} {process : Process}
    (hsingle : startDaemon tools settings entry launched s = [process])
    (h : Undisturbed tools settings s (.start entry launched)) :
    tools.selects entry.iface (tools.psLine process.pid process.argv) =
      process.serves entry.iface := by
  obtain ⟨running, hserving, hfile⟩ := h
  rw [startInstance_pidFiles_self, hsingle, Option.some_inj] at hfile
  rw [State.serving, startInstance_processes, hsingle] at hserving
  have hpids := hfile.trans hserving.symm
  cases hselects : tools.selects entry.iface (tools.psLine process.pid process.argv) <;>
    cases hserves : process.serves entry.iface <;> simp [selected, hselects, hserves] at hpids ⊢

/-- Two starts, of which the first one launches a single process. -/
def probe (before after : List Instance) (other : Instance) (pid : Pid) : List Action :=
  before.map idle ++ .start other (some pid) :: (after.map idle ++
    (before ++ other :: after).map idle)

theorem follows_probe (before after : List Instance) (other : Instance) (pid : Pid) :
    Follows (before ++ other :: after) [.start, .start] (probe before after other pid) := by
  have hidle : ∀ idles : List Instance,
      (idles.map idle).filterMap Action.call = idles.map Call.startInstance := by
    intro idles
    rw [List.filterMap_map]
    exact congrFun (List.filterMap_eq_map (f := Call.startInstance)) idles
  have hother : ∀ launched, (Action.start other launched).call = some (.startInstance other) :=
    fun _ => rfl
  simp only [Follows, probe, List.filterMap_append, List.filterMap_cons, hother, hidle, idle,
    Command.calls, List.flatMap_cons, List.flatMap_nil, List.map_append, List.map_cons,
    List.append_nil, List.append_assoc, List.cons_append]

/-- If no run disturbs an instance, names are found where they should be. -/
theorem separated_of_undisturbed
    (h : ∀ commands actions, Follows entries commands actions →
      EachStep (perform tools settings) (fun s action => Possible s action ∧ Settled s action)
        .initial actions →
      EachStep (perform tools settings) (Undisturbed tools settings) .initial actions) :
    Separated tools settings entries := by
  intro entry hentry other hother pid
  obtain ⟨before, behind, rfl⟩ := List.append_of_mem hother
  have hprocesses : (after (perform tools settings) .initial (before.map idle)).processes = [] :=
    after_idle_processes before .initial
  have hfiles := after_idle_pidFiles tools settings before (s := .initial) rfl fun _ => rfl
  have hlaunched := startDaemon_first tools settings other pid hprocesses hfiles
  have hrun : EachStep (perform tools settings) (fun s action => Possible s action ∧
      Settled s action) .initial (probe before behind other pid) := by
    rw [probe, eachStep_append, eachStep_cons, ← List.map_append]
    refine ⟨eachStep_idle before (by simp [State.initial]), ⟨?_, ?_⟩, eachStep_idle _ ?_⟩
    · simp [Possible, hprocesses]
    · simp [Settled, hprocesses]
    · change ∀ process ∈ startDaemon tools settings other (some pid) _, process.signalled = false
      rw [hlaunched]
      simp
  have hundisturbed := h [.start, .start] _ (follows_probe before behind other pid) hrun
  have hown := selects_of_single hlaunched (EachStep.at hundisturbed)
  refine ⟨fun hselects => ?_, fun heq => ?_⟩
  · -- The second start comes to the other interface while the single process is running.
    obtain ⟨front, back, hsplit⟩ := List.append_of_mem hentry
    rw [probe, hsplit, List.map_append, List.map_cons, ← List.append_assoc, ← List.cons_append,
      ← List.append_assoc] at hundisturbed
    have hsingle : (after (perform tools settings) .initial (before.map idle ++
        .start other (some pid) :: (behind.map idle ++ front.map idle))).processes =
          [⟨pid, other.iface, settings.argv other, false⟩] := by
      rw [after_append, after_cons, after_append, after_idle_processes, after_idle_processes]
      exact hlaunched
    have hsecond := selects_of_single ((startDaemon_none tools settings entry _).trans hsingle)
      (EachStep.at hundisturbed)
    rw [hsecond] at hselects
    exact (of_decide_eq_true (Bool.and_eq_true_iff.mp hselects).1).symm
  · rw [heq, hown]
    simp [Process.serves]

/-- The name of each interface is found in the lines of its own processes and in no others exactly
if this holds of all runs of the script: every pid file that `start_instance` writes holds the
process that serves the interface, and `stop_instance` signals this process only, as long as no
interface is started while a process of it is about to end, and no longer. -/
theorem undisturbed_iff (tools : Tools) (settings : Settings) (conf : Text) :
    (∀ commands actions, Follows (settings.processLoop conf) commands actions →
      EachStep (perform tools settings) Possible .initial actions →
      (EachStep (perform tools settings) (Undisturbed tools settings) .initial actions ↔
        EachStep (perform tools settings) Settled .initial actions)) ↔
    Separated tools settings (settings.processLoop conf) := by
  constructor
  · refine fun h => separated_of_undisturbed fun commands actions hfollows hrun => ?_
    obtain ⟨hpossible, hsettled⟩ := eachStep_and.mp hrun
    exact (h commands actions hfollows hpossible).mpr hsettled
  · exact fun hsep _ _ hfollows hpossible => run_undisturbed_iff hsep hfollows hpossible

/-! ## A name within another -/

/-- The tools as far as ordinary names go: pids without blanks before them, names that are looked
for as they stand, and a `start-stop-daemon` that reads the first pid of a file. -/
def Tools.firstPid : Tools where
  pidText pid := Nat.toDigits 10 pid
  selects iface line := line.tails.any iface.isPrefixOf
  finds pids running := pids.head?.any running.contains
  signals pids := pids.take 1
  pidText_chars _ _ hc := .inr (Nat.isDigit_of_mem_toDigits (by decide) (by decide) hc)
  selects_literal := by
    intro iface _ line
    simp only [List.any_eq_true, List.mem_tails, List.isPrefixOf_iff_prefix]
    exact ⟨fun ⟨_, hsuffix, hprefix⟩ => hprefix.isInfix.trans hsuffix.isInfix,
      fun hinfix => (List.infix_iff_prefix_suffix.mp hinfix).imp fun _ h => ⟨h.2, h.1⟩⟩
  finds_nil _ := rfl
  finds_singleton _ _ := rfl
  signals_nil := rfl
  signals_singleton _ := rfl

/-- The values of `/etc/default/arpwatch` as they are installed. -/
def Settings.installed : Settings where
  expansion := .literal
  args := "-N -p".toList
  runas := "arpwatch".toList
  knownUser _ := true

def eth10 : Instance := ⟨"eth10".toList, []⟩

def eth1 : Instance := ⟨"eth1".toList, []⟩

theorem installed_processLoop :
    Settings.installed.processLoop "eth10\neth1\n".toList = [eth10, eth1] := by
  decide +kernel

/-- Both interfaces are started, with the pids 100 and 101. -/
def bothStarted : List Action := [.start eth10 (some 100), .start eth1 (some 101)]

/-- The pid file of `eth1` then has the process of `eth10` as well. -/
theorem pidFiles_bothStarted :
    (after (perform .firstPid .installed) .initial bothStarted).pidFiles (pidFile eth1.iface) =
      some [100, 101] := by
  decide +kernel

/-- Though the interfaces of a file have distinct names, not all runs leave the pid file of an
interface with the process for this interface only. -/
theorem eth1_selects_eth10 :
    ¬ ∀ conf, ((Settings.installed.processLoop conf).map Instance.iface).Nodup →
      ∀ commands actions, Follows (Settings.installed.processLoop conf) commands actions →
      EachStep (perform .firstPid .installed) (fun s action => Possible s action ∧
        Settled s action) .initial actions →
      EachStep (perform .firstPid .installed) (Undisturbed .firstPid .installed) .initial
        actions := by
  intro h
  have hfollows : Follows (Settings.installed.processLoop "eth10\neth1\n".toList) [.start]
      bothStarted := by
    rw [installed_processLoop]
    rfl
  have hdistinct : ((Settings.installed.processLoop "eth10\neth1\n".toList).map
      Instance.iface).Nodup := by
    rw [installed_processLoop]
    decide
  have hfirst : (perform .firstPid .installed (.start eth10 (some 100)) .initial).processes =
      [⟨100, eth10.iface, Settings.installed.argv eth10, false⟩] :=
    startDaemon_first (s := .initial) .firstPid .installed eth10 100 rfl fun _ => rfl
  have hundisturbed := h _ hdistinct [.start] bothStarted hfollows
    ⟨⟨by simp [Possible, State.initial], by simp [Settled, State.initial]⟩,
      ⟨by simp [Possible, hfirst], by simp [Settled, hfirst]⟩, trivial⟩
  obtain ⟨running, -, hfile⟩ := hundisturbed.2.1
  have hpids : [100, 101] = running.toList :=
    Option.some_inj.mp (pidFiles_bothStarted.symm.trans hfile)
  cases running <;> simp at hpids

/-! ## Names without special characters -/

/-- A name that begins with a lowercase letter and has no white space and no character that is
special in a pattern or in a regular expression. -/
def isPlainName (iface : Text) : Bool :=
  iface.head?.any Char.isLower && isPlainWord iface && iface.all fun c => !isSpecial c

/-- What begins with a character that is not in front is found behind. -/
theorem cons_infix_append {α : Type*} {x : α} {front : List α} (h : x ∉ front)
    (part behind : List α) : x :: part <:+: front ++ behind ↔ x :: part <:+: behind := by
  induction front with
  | nil => rfl
  | cons y front ih =>
      obtain ⟨hne, hfront⟩ := not_or.mp fun hor => h (List.mem_cons.mpr hor)
      rw [List.cons_append, List.infix_cons_iff, List.cons_prefix_cons, ih hfront]
      exact or_iff_right fun hprefix => hne hprefix.1

/-- A lowercase letter does not occur in the column of the pids. -/
theorem not_mem_pidText (tools : Tools) {c : Char} (h : c.isLower = true) (pid : Pid) :
    c ∉ tools.pidText pid ++ [' '] := by
  intro hmem
  rcases List.mem_append.mp hmem with hpid | hblank
  · rcases tools.pidText_chars pid c hpid with rfl | hdigit
    · exact absurd h (by decide)
    · have hlower : 'a'.val ≤ c.val := of_decide_eq_true (Bool.and_eq_true_iff.mp h).1
      have hnine : c.val ≤ '9'.val := of_decide_eq_true (Bool.and_eq_true_iff.mp hdigit).2
      exact absurd (UInt32.le_trans hlower hnine) (by decide)
  · obtain rfl := List.mem_singleton.mp hblank
    exact absurd h (by decide)

/-- A plain name is looked for in the command of the process. -/
theorem selects_iff_of_plain (tools : Tools) {iface : Text} (h : isPlainName iface = true)
    (pid : Pid) (argv : List Text) :
    tools.selects iface (tools.psLine pid argv) = true ↔ iface <:+: joinWords argv := by
  cases iface with
  | nil => cases h
  | cons c name =>
      simp only [isPlainName, List.head?_cons, Option.any_some, Bool.and_eq_true, List.all_eq_true,
        Bool.not_eq_true'] at h
      obtain ⟨⟨hlower, -⟩, hspecial⟩ := h
      rw [tools.selects_literal hspecial, Tools.psLine, List.append_cons,
        cons_infix_append (not_mem_pidText tools hlower pid)]

/-- The name of the interface is a word of the command. -/
theorem mem_argv_of_plain (settings : Settings) {entry : Instance}
    (h : isPlainName entry.iface = true) : entry.iface ∈ settings.argv entry := by
  simp only [isPlainName, Bool.and_eq_true, isPlainWord, List.all_eq_true, Bool.not_eq_true'] at h
  obtain ⟨⟨hlower, hifs, hpattern⟩, -⟩ := h
  have hne : entry.iface ≠ [] := by
    intro hnil
    rw [hnil] at hlower
    cases hlower
  have hopts : entry.ifaceOpts = ("-P ".toList ++ pidFile entry.iface ++ " -i".toList) ++
      ' ' :: (entry.iface ++ ' ' :: ("-f /var/lib/arpwatch/".toList ++ entry.iface ++
        ".dat ".toList ++ entry.options)) := by
    have hbefore : " -i ".toList = " -i".toList ++ [' '] := rfl
    have hbehind : " -f /var/lib/arpwatch/".toList = ' ' :: "-f /var/lib/arpwatch/".toList := rfl
    delta Instance.ifaceOpts
    rw [hbefore, hbehind]
    simp only [List.append_assoc, List.cons_append, List.nil_append]
  have hfield : entry.iface ∈ fields isIfs entry.ifaceOpts := by
    rw [hopts, fields_append_cons (by decide), fields_append_sep_of_forall (by decide) hne hifs]
    exact List.mem_append_right _ List.mem_cons_self
  refine List.mem_cons_of_mem _ (List.mem_append_left _ (List.mem_flatMap.mpr ⟨_, hfield, ?_⟩))
  rw [settings.expansion.plain _ hpattern]
  exact List.mem_singleton_self _

/-- Plain names are separated if no command has the name of another interface in it. -/
theorem separated_iff_of_plain (h : ∀ entry ∈ entries, isPlainName entry.iface = true) :
    Separated tools settings entries ↔ ∀ entry ∈ entries, ∀ other ∈ entries,
      entry.iface <:+: joinWords (settings.argv other) → entry.iface = other.iface := by
  constructor
  · intro hsep entry hentry other hother hfound
    exact (hsep entry hentry other hother 0).mp
      ((selects_iff_of_plain tools (h entry hentry) 0 _).mpr hfound)
  · intro hfound entry hentry other hother pid
    rw [selects_iff_of_plain tools (h entry hentry)]
    refine ⟨hfound entry hentry other hother, fun heq => ?_⟩
    rw [heq]
    exact infix_intercalate (mem_argv_of_plain settings (h other hother)) _

example : Separated .firstPid .installed [eth10, ⟨"eth2".toList, []⟩] := by
  have hplain : ∀ entry ∈ [eth10, ⟨"eth2".toList, []⟩], isPlainName entry.iface = true := by
    simp only [List.forall_mem_cons]
    decide +kernel
  rw [separated_iff_of_plain hplain]
  simp only [List.forall_mem_cons]
  decide +kernel

end MetaSecurity.Arpwatch
