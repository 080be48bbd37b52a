import MetaSecurity.Library.Shell.Expand
import Mathlib.Data.List.Sort
import Mathlib.Logic.Function.Basic

/-!
# The init script of arpwatch

`arpwatch_init` runs one arpwatch process for every interface of `/etc/arpwatch.conf`.
`start_instance` lets `start-stop-daemon` start the process and then writes the pid file itself,
with the process ids of all arpwatch processes whose line in the output of `ps` matches the name of
the interface; `stop_instance` lets `start-stop-daemon` signal what the pid file names. The state is
the arpwatch processes and the pid files. What `ps`, `awk` and `start-stop-daemon` do is a
parameter, and so is whether a process can be launched.
-/

namespace MetaSecurity.Arpwatch

open Library Shell

abbrev Pid := Nat

/-- The operands of `start_instance`: an interface and its options. -/
structure Instance where
  iface : Text
  options : Text
  deriving Repr, DecidableEq

/-! ## Configuration -/

/-- What the script does not read from `arpwatch.conf`: the directory for pathname expansion, the
variables of `/etc/default/arpwatch`, and the users that `getent` knows. -/
structure Settings where
  expansion : PathnameExpansion
  args : Text
  runas : Text
  knownUser : Text → Bool

/-- `$ARGS` when the instances are started. -/
def Settings.globalArgs (settings : Settings) : Text :=
  if settings.runas ≠ [] && settings.knownUser settings.runas then
    "-u ".toList ++ settings.runas ++ ' ' :: settings.args
  else settings.args

/-- `grep '^[a-z]'`. -/
def grepLower (conf : Text) : Text :=
  terminate '\n' ((allRecords '\n' conf).filter fun line => line.head?.any Char.isLower)

/-- `process_loop_break_line $LINE`. -/
def breakLine (g : PathnameExpansion) (line : Text) : Option Instance :=
  match expand g line with
  | [] => none
  | iface :: options => some ⟨iface, joinWords options⟩

/-- The operands in `$OPERATION $I "$I_OPTS"`, where the interface is expanded once more. -/
def operands (g : PathnameExpansion) (entry : Instance) : Option Instance :=
  match expand g entry.iface ++ [entry.options] with
  | iface :: options :: _ => some ⟨iface, options⟩
  | _ => none

/-- What `process_loop` calls its operation with. The lines begin with a letter, so there always is
an interface. -/
def Settings.processLoop (settings : Settings) (conf : Text) : List Instance :=
  (readLines (grepLower conf)).filterMap fun line =>
    (breakLine settings.expansion (readValue line)).bind (operands settings.expansion)

/-- `/var/run/${INSTANCE}.pid`. -/
def pidFile (iface : Text) : Text :=
  "/var/run/arpwatch-".toList ++ iface ++ ".pid".toList

theorem pidFile_inj {iface iface' : Text} : pidFile iface = pidFile iface' ↔ iface = iface' :=
  ⟨fun h => List.append_cancel_left (List.append_cancel_right h), congrArg pidFile⟩

/-- `$IFACE_OPTS`. -/
def Instance.ifaceOpts (entry : Instance) : Text :=
  "-P ".toList ++ pidFile entry.iface ++ " -i ".toList ++ entry.iface ++
    " -f /var/lib/arpwatch/".toList ++ entry.iface ++ ".dat ".toList ++ entry.options

/-- The program and its arguments: `$DAEMON $IFACE_OPTS $ARGS`. -/
def Settings.argv (settings : Settings) (entry : Instance) : List Text :=
  "/usr/sbin/arpwatch".toList :: (expand settings.expansion entry.ifaceOpts ++
    expand settings.expansion settings.globalArgs)

/-! ## Processes -/

/-- An arpwatch process, the interface that it was started for, and whether it has been
signalled. -/
structure Process where
  pid : Pid
  iface : Text
  argv : List Text
  signalled : Bool
  deriving Repr, DecidableEq

/-- The arpwatch processes in the order of their pids, and the pids in the pid files. -/
structure State where
  processes : List Process
  pidFiles : Text → Option (List Pid)

/-- Before the script has run. -/
def State.initial : State where
  processes := []
  pidFiles _ := none

/-- The character is special in an extended regular expression between slashes. -/
def isSpecial (c : Char) : Bool :=
  "\\^$.[]|()*+?\x7b\x7d/".toList.contains c

/-- The tools of the script. `selects iface line` says that `awk "/$IFACE/ \x7b print \$1 \x7d"`
prints for the line: a name without special characters is looked for as it stands. `finds` is what
`start-stop-daemon --start` makes of the contents of a pid file and the running processes, and
`signals` are the processes that `start-stop-daemon --stop` signals for these contents; where they
name several processes, it is left open which of them count. -/
structure Tools where
  pidText : Pid → Text
  selects : Text → Text → Bool
  finds : List Pid → List Pid → Bool
  signals : List Pid → List Pid
  pidText_chars : ∀ pid, ∀ c ∈ pidText pid, c = ' ' ∨ c.isDigit = true
  selects_literal : ∀ {iface}, (∀ c ∈ iface, isSpecial c = false) → ∀ line,
    selects iface line = true ↔ iface <:+: line
  finds_nil : ∀ running, finds [] running = false
  finds_singleton : ∀ pid running, finds [pid] running = running.contains pid
  signals_nil : signals [] = []
  signals_singleton : ∀ pid, signals [pid] = [pid]

/-- The line of a process in the output of `ps h -C $NAME -o pid,args`. -/
def Tools.psLine (tools : Tools) (pid : Pid) (argv : List Text) : Text :=
  tools.pidText pid ++ ' ' :: joinWords argv

/-! ## Operations -/

/-- A process takes its place in the order of the pids. -/
def insertProcess (process : Process) (processes : List Process) : List Process :=
  processes.orderedInsert (fun p q => p.pid ≤ q.pid) process

/-- `start-stop-daemon --start`: unless it finds a process, it launches one, which can fail. -/
def startDaemon (tools : Tools) (settings : Settings) (entry : Instance) (launched : Option Pid)
    (s : State) : List Process :=
  if tools.finds ((s.pidFiles (pidFile entry.iface)).getD []) (s.processes.map Process.pid) then
    s.processes
  else
    match launched with
    | none => s.processes
    | some pid => insertProcess ⟨pid, entry.iface, settings.argv entry, false⟩ s.processes

/-- `ps h -C $NAME -o pid,args | awk "/$IFACE/ \x7b print \$1 \x7d"`. -/
def selected (tools : Tools) (iface : Text) (processes : List Process) : List Pid :=
  (processes.filter fun process =>
    tools.selects iface (tools.psLine process.pid process.argv)).map Process.pid

/-- `start_instance`. The process also gets the name of the pid file, but what it writes there is
written over. -/
def startInstance (tools : Tools) (settings : Settings) (entry : Instance) (launched : Option Pid)
    (s : State) : State where
  processes := startDaemon tools settings entry launched s
  pidFiles := Function.update s.pidFiles (pidFile entry.iface)
    (some (selected tools entry.iface (startDaemon tools settings entry launched s)))

section

variable (tools : Tools) (settings : Settings) (entry : Instance) (launched : Option Pid)
  (s : State)

@[simp] theorem startInstance_processes :
    (startInstance tools settings entry launched s).processes =
      startDaemon tools settings entry launched s := rfl

theorem startInstance_pidFiles_self :
    (startInstance tools settings entry launched s).pidFiles (pidFile entry.iface) =
      some (selected tools entry.iface (startDaemon tools settings entry launched s)) :=
  Function.update_self ..

/-- The pid files of other interfaces are left alone. -/
theorem startInstance_pidFiles_of_ne {iface : Text} (h : iface ≠ entry.iface) :
    (startInstance tools settings entry launched s).pidFiles (pidFile iface) =
      s.pidFiles (pidFile iface) :=
  Function.update_of_ne (fun heq => h (pidFile_inj.mp heq)) ..

end

/-- The processes after a signal to some of them. -/
def signal (pids : List Pid) (processes : List Process) : List Process :=
  processes.map fun process =>
    if pids.contains process.pid then { process with signalled := true } else process

/-- `stop_instance`. -/
def stopInstance (tools : Tools) (entry : Instance) (s : State) : State :=
  match s.pidFiles (pidFile entry.iface) with
  | none => s
  | some pids => {
      processes := signal (tools.signals pids) s.processes
      pidFiles := Function.update s.pidFiles (pidFile entry.iface) none }

/-! ## Runs -/

/-- What happens: the calls of the script, with what `start-stop-daemon` can launch, and the end of
a process. -/
inductive Action where
  | start (entry : Instance) (launched : Option Pid)
  | stop (entry : Instance)
  | exit (pid : Pid)
  deriving Repr, DecidableEq

def perform (tools : Tools) (settings : Settings) : Action → State → State
  | .start entry launched, s => startInstance tools settings entry launched s
  | .stop entry, s => stopInstance tools entry s
  | .exit pid, s => { s with processes := s.processes.filter fun process => process.pid ≠ pid }

/-- What can happen: a new process has a pid of its own, and a process ends when it has been
signalled. -/
def Possible (s : State) : Action → Prop
  | .start _ launched => ∀ pid ∈ launched, pid ∉ s.processes.map Process.pid
  | .stop _ => True
  | .exit pid => ∃ process ∈ s.processes, process.pid = pid ∧ process.signalled = true

/-- The commands of the script. -/
inductive Command where
  | start
  | stop
  | restart
  deriving Repr, DecidableEq

/-- A call of one of the two functions. -/
inductive Call where
  | startInstance (entry : Instance)
  | stopInstance (entry : Instance)
  deriving Repr, DecidableEq

/-- The operands of the call. -/
def Call.entry : Call → Instance
  | startInstance entry => entry
  | stopInstance entry => entry

/-- The calls of a command. -/
def Command.calls (entries : List Instance) : Command → List Call
  | start => entries.map .startInstance
  | stop => entries.map .stopInstance
  | restart => entries.map .stopInstance ++ entries.map .startInstance

/-- The call that an action is. -/
def Action.call : Action → Option Call
  | start entry _ => some (.startInstance entry)
  | stop entry => some (.stopInstance entry)
  | exit _ => none

/-- The actions of a sequence of commands, with processes that end in between. -/
def Follows (entries : List Instance) (commands : List Command) (actions : List Action) : Prop :=
  actions.filterMap Action.call = commands.flatMap (Command.calls entries)

end MetaSecurity.Arpwatch
