import MetaSecurity.Library.Supervision
import MetaSecurity.Library.Traces
import MetaSecurity.Library.Shell.Read

/-!
# The init scripts of the daemons

The scripts of samhain, parsec, tcsd and tpm2-abrmd start and stop their daemon with
`start-stop-daemon`. Those of samhain and parsec find it by its executable, the others by a pid file
as well. `restart` stops the daemon, waits or not, and starts it: which processes have ended by then
is an argument, for a daemon that has been told to end may take its time. `start-stop-daemon` is a
parameter with the laws of its manual.
-/

namespace MetaSecurity.Services

open Library Shell Supervision

/-- What `start-stop-daemon` looks at: the executable and the user of a process. -/
structure Image where
  exec : Text
  user : Text
  deriving Repr, DecidableEq

/-- The processes of the machine, and the contents of the pid file of the service. -/
structure State where
  processes : List (Process Image)
  pidFile : Option (List Nat)
  deriving Repr, DecidableEq

/-- Processes end. -/
def State.leave (s : State) (pids : List Nat) : State :=
  { s with processes := Supervision.leave pids s.processes }

/-! ## `start-stop-daemon` -/

/-- The options of `start-stop-daemon`. -/
structure Options where
  exec : Text
  user : Option Text
  chuid : Text
  pidFile : Bool
  makePidfile : Bool
  oknodo : Bool
  background : Bool
  deriving Repr, DecidableEq

/-- The process is one of the service: it has the executable of `--exec` and the user of
`--user`. -/
def Options.isInstance (o : Options) (image : Image) : Bool :=
  image.exec = o.exec && o.user.all fun user => image.user = user

/-- What becomes of a daemon that is started: its process, whether it runs, and the status with
which `start-stop-daemon` exits unless it has left a running daemon in the background. -/
structure Launch where
  pid : Nat
  runs : Bool
  status : Nat
  deriving Repr, DecidableEq

/-- The status where `start-stop-daemon` has nothing to do. -/
def Options.idleStatus (o : Options) : Nat :=
  if o.oknodo then 0 else 1

/-- `start-stop-daemon`. `finds` are the processes that match the options. A pid file with one
number stands for the process that has it; where there are several, it is left open which of them
count. `--start` does nothing if it finds a process. With `--background` it does not wait for the
daemon, and with `--make-pidfile` it writes the pid of the daemon. `--stop` tells what it finds to
end; with a signal that ends nothing only its status matters. -/
structure Tools where
  finds : Options → State → List Nat
  start : Options → Launch → State → Nat × State
  stop : Options → State → Nat × State
  signal : Options → State → Nat
  finds_of_exec : ∀ {o s}, o.pidFile = false →
    finds o s = (instances o.isInstance s.processes).map Process.pid
  finds_of_empty : ∀ {o s}, o.pidFile = true → s.pidFile.getD [] = [] → finds o s = []
  finds_of_singleton : ∀ {o s pid}, o.pidFile = true → s.pidFile = some [pid] →
    finds o s = ((instances o.isInstance s.processes).map Process.pid).filter (· = pid)
  start_of_found : ∀ {o s}, finds o s ≠ [] → ∀ launched, start o launched s = (o.idleStatus, s)
  start_status : ∀ {o s}, finds o s = [] → ∀ launched, (start o launched s).1 =
    if o.background && launched.runs then 0 else launched.status
  start_processes : ∀ {o s}, finds o s = [] → ∀ launched, (start o launched s).2.processes =
    if launched.runs then launch launched.pid ⟨o.exec, o.chuid⟩ s.processes else s.processes
  start_pidFile : ∀ {o s}, finds o s = [] → ∀ launched, o.makePidfile = true →
    launched.runs = true → (start o launched s).2.pidFile = some [launched.pid]
  stop_status : ∀ o s, (stop o s).1 = if finds o s = [] then o.idleStatus else 0
  stop_processes : ∀ o s, (stop o s).2.processes =
    tellSelected (fun pid _ => (finds o s).contains pid) s.processes
  stop_pidFile : ∀ o s, (stop o s).2.pidFile = s.pidFile
  signal_status : ∀ o s, signal o s = if finds o s = [] then o.idleStatus else 0

/-! ### A `start-stop-daemon` that reads the first number of a pid file -/

namespace FirstPid

def finds (o : Options) (s : State) : List Nat :=
  ((instances o.isInstance s.processes).map Process.pid).filter fun pid =>
    !o.pidFile || (s.pidFile.getD []).head? == some pid

def start (o : Options) (launched : Launch) (s : State) : Nat × State :=
  if finds o s ≠ [] then (o.idleStatus, s)
  else
    (if o.background && launched.runs then 0 else launched.status, {
      processes := if launched.runs then launch launched.pid ⟨o.exec, o.chuid⟩ s.processes
        else s.processes
      pidFile := if o.makePidfile then some [launched.pid] else s.pidFile })

def stop (o : Options) (s : State) : Nat × State :=
  (if finds o s = [] then o.idleStatus else 0, { s with
    processes := tellSelected (fun pid _ => (finds o s).contains pid) s.processes })

end FirstPid

/-- The laws hold of it. -/
def Tools.firstPid : Tools where
  finds := FirstPid.finds
  start := FirstPid.start
  stop := FirstPid.stop
  signal o s := if FirstPid.finds o s = [] then o.idleStatus else 0
  finds_of_exec h := by simp [FirstPid.finds, h]
  finds_of_empty h hempty := by simp [FirstPid.finds, h, hempty]
  finds_of_singleton h hpid := by
    refine List.filter_congr fun pid _ => ?_
    rw [h, hpid]
    exact decide_eq_decide.mpr eq_comm
  start_of_found h launched := if_pos h
  start_status h launched := by rw [FirstPid.start, if_neg (not_not.mpr h)]
  start_processes h launched := by rw [FirstPid.start, if_neg (not_not.mpr h)]
  start_pidFile h launched hmake hruns := by
    rw [FirstPid.start, if_neg (not_not.mpr h), hmake]
    rfl
  stop_status o s := rfl
  stop_processes o s := rfl
  stop_pidFile o s := rfl
  signal_status o s := rfl

/-! ## The machine -/

/-- What `parsec_init` needs before it starts the daemon: whether `/run/parsec` is there, and the
statuses of the commands that make it and of `cd /var/lib/parsec`. -/
structure Directories where
  present : Bool
  mkdir : Nat
  chown : Nat
  chmod : Nat
  cd : Nat
  deriving Repr, DecidableEq

/-- Everything is there. -/
def Directories.ready : Directories :=
  ⟨true, 0, 0, 0, 0⟩

/-- With `sh -e` the first command that fails ends the script with its status. -/
def Directories.status (directories : Directories) : Nat :=
  let commands := if directories.present then [directories.cd]
    else [directories.mkdir, directories.chown, directories.chmod, directories.cd]
  (commands.find? fun status => status != 0).getD 0

/-- What a script finds on the machine. -/
structure Host where
  enabled : Bool
  executable : Bool
  database : Bool
  configuration : Bool
  devices : List Text
  directories : Directories
  deriving Repr, DecidableEq

/-- The commands of a script: their statuses, and what they make of the state. -/
structure Service where
  start : Host → Launch → State → Nat × State
  stop : Host → State → Nat × State
  reload : Host → State → Nat × State
  restart : Host → List Nat → Launch → State → Nat × State

/-! ## samhain -/

/-- The script for one of the forms of samhain. -/
structure Samhain where
  options : Options
  needsDatabase : Bool
  deriving Repr, DecidableEq

/-- `start-stop-daemon --exec $DAEMON` as root. -/
def samhainOptions (daemon : Text) : Options :=
  ⟨daemon, none, "root".toList, false, false, false, false⟩

/-- `samhain-standalone.init`. -/
def samhainStandalone : Samhain :=
  ⟨samhainOptions "/usr/sbin/samhain".toList, true⟩

/-- `samhain-client.init`. -/
def samhainClient : Samhain :=
  ⟨samhainOptions "/usr/sbin/samhain".toList, true⟩

/-- `samhain-server.init`. -/
def samhainServer : Samhain :=
  ⟨samhainOptions "/usr/sbin/yule".toList, false⟩

/-- The status with which the script gives up before it looks at its command. -/
def Samhain.guard (script : Samhain) (host : Host) : Option Nat :=
  if !host.enabled then some 0
  else if !host.executable then some 1
  else if script.needsDatabase && !host.database then some 1
  else none

/-- `start`, which removes the pid file first. -/
def Samhain.start (script : Samhain) (tools : Tools) (host : Host) (launched : Launch)
    (s : State) : Nat × State :=
  match script.guard host with
  | some status => (status, s)
  | none => tools.start script.options launched { s with pidFile := none }

/-- `stop`. -/
def Samhain.stop (script : Samhain) (tools : Tools) (host : Host) (s : State) : Nat × State :=
  match script.guard host with
  | some status => (status, s)
  | none =>
      let (status, s) := tools.stop script.options s
      (status, { s with pidFile := none })

/-- `reload` sends a signal that ends nothing. -/
def Samhain.reload (script : Samhain) (tools : Tools) (host : Host) (s : State) : Nat × State :=
  match script.guard host with
  | some status => (status, s)
  | none => (tools.signal script.options s, s)

/-- `restart`, with the processes that have ended when the daemon is started. -/
def Samhain.restart (script : Samhain) (tools : Tools) (host : Host) (ended : List Nat)
    (launched : Launch) (s : State) : Nat × State :=
  match script.guard host with
  | some status => (status, s)
  | none => script.start tools host launched ((script.stop tools host s).2.leave ended)

def Samhain.service (script : Samhain) (tools : Tools) : Service where
  start := script.start tools
  stop := script.stop tools
  reload := script.reload tools
  restart := script.restart tools

/-! ## parsec -/

/-- `start-stop-daemon --oknodo --chuid parsec:parsec --exec /usr/libexec/parsec/parsec`. -/
def parsecOptions : Options :=
  ⟨"/usr/libexec/".toList ++ "parsec/parsec".toList, none, "parsec".toList, false, false, true,
    true⟩

/-- `start` of `parsec_init`. -/
def parsecStart (tools : Tools) (host : Host) (launched : Launch) (s : State) : Nat × State :=
  if !host.executable then (0, s)
  else if !host.configuration then (0, s)
  else if host.directories.status ≠ 0 then (host.directories.status, s)
  else tools.start parsecOptions launched s

/-- `stop` of `parsec_init`. -/
def parsecStop (tools : Tools) (host : Host) (s : State) : Nat × State :=
  if !host.executable then (0, s) else tools.stop parsecOptions s

/-- `reload` of `parsec_init`: the options lack `--oknodo` here, and with `sh -e` the status of
`start-stop-daemon` is that of the script. -/
def parsecReload (tools : Tools) (host : Host) (s : State) : Nat × State :=
  if !host.executable then (0, s)
  else (tools.signal { parsecOptions with oknodo := false } s, s)

/-- `restart` of `parsec_init`. With `sh -e` the script ends where a command fails, and when the
daemon has been started its status is 0. -/
def parsecRestart (tools : Tools) (host : Host) (ended : List Nat) (launched : Launch)
    (s : State) : Nat × State :=
  if !host.executable then (0, s)
  else
    let (status, s) := parsecStop tools host s
    if status = 0 then parsecStart tools host launched (s.leave ended) else (status, s)

def parsec (tools : Tools) : Service where
  start := parsecStart tools
  stop := parsecStop tools
  reload := parsecReload tools
  restart := parsecRestart tools

/-! ## tcsd and tpm2-abrmd -/

/-- The options of `trousers.init.sh`. -/
def tcsdOptions : Options :=
  ⟨"/usr/sbin/tcsd".toList, some "tss".toList, "tss".toList, true, true, true, true⟩

/-- The options of `tpm2-abrmd-init.sh`, which writes the pid file itself. -/
def abrmdOptions : Options :=
  ⟨"/usr/sbin/".toList ++ "tpm2-abrmd".toList, some "tss".toList, "tss".toList, true, false, true,
    true⟩

/-- `start` of `trousers.init.sh`. Where the pattern matches several devices the test fails, and the
script goes on as it does with one. -/
def tcsdStart (tools : Tools) (host : Host) (launched : Launch) (s : State) : Nat × State :=
  if !host.executable then (0, s)
  else if host.devices.isEmpty then (0, s)
  else tools.start tcsdOptions launched s

/-- `stop` of both scripts: the pid file is removed whatever became of the process. -/
def stopAndForget (tools : Tools) (o : Options) (host : Host) (s : State) : Nat × State :=
  if !host.executable then (0, s)
  else
    let (status, s) := tools.stop o s
    (status, { s with pidFile := none })

/-- Both scripts have no `reload`. -/
def noReload (host : Host) (s : State) : Nat × State :=
  (if !host.executable then 0 else 3, s)

def tcsdStop (tools : Tools) : Host → State → Nat × State :=
  stopAndForget tools tcsdOptions

def tcsdRestart (tools : Tools) (host : Host) (ended : List Nat) (launched : Launch)
    (s : State) : Nat × State :=
  if !host.executable then (0, s)
  else tcsdStart tools host launched ((tcsdStop tools host s).2.leave ended)

def tcsd (tools : Tools) : Service where
  start := tcsdStart tools
  stop := tcsdStop tools
  reload := noReload
  restart := tcsdRestart tools

/-- `pidof`: the pids of some processes in some order. -/
structure Pidof where
  list : List (Process Image) → List Nat
  perm : ∀ processes, (list processes).Perm (processes.map Process.pid)

/-- The processes that `pidof $DAEMON` sees. A child that has been launched may not be the daemon
yet when `pidof` looks, and then it is not visible. -/
def seen (visible : Nat → Bool) (launched : Launch) (processes : List (Process Image)) :
    List (Process Image) :=
  processes.filter fun p =>
    p.image.exec = abrmdOptions.exec && (p.pid != launched.pid || visible p.pid)

/-- `start` of `tpm2-abrmd-init.sh`. -/
def abrmdStart (tools : Tools) (pidof : Pidof) (visible : Nat → Bool) (host : Host)
    (launched : Launch) (s : State) : Nat × State :=
  if !host.executable then (0, s)
  else if host.devices.isEmpty then (0, s)
  else
    let (status, s) := tools.start abrmdOptions launched s
    (status, if status = 0 then
        { s with pidFile := some (pidof.list (seen visible launched s.processes)) }
      else s)

def abrmdStop (tools : Tools) : Host → State → Nat × State :=
  stopAndForget tools abrmdOptions

def abrmdRestart (tools : Tools) (pidof : Pidof) (visible : Nat → Bool) (host : Host)
    (ended : List Nat) (launched : Launch) (s : State) : Nat × State :=
  if !host.executable then (0, s)
  else abrmdStart tools pidof visible host launched ((abrmdStop tools host s).2.leave ended)

def abrmd (tools : Tools) (pidof : Pidof) (visible : Nat → Bool) : Service where
  start := abrmdStart tools pidof visible
  stop := abrmdStop tools
  reload := noReload
  restart := abrmdRestart tools pidof visible

/-! ## Runs -/

/-- What happens to the processes: the commands of the script, one after the other, the end of
processes, and what other programs launch. -/
inductive Action where
  | start (host : Host) (launched : Launch)
  | stop (host : Host)
  | reload (host : Host)
  | restart (host : Host) (ended : List Nat) (launched : Launch)
  | leave (pids : List Nat)
  | other (pid : Nat) (image : Image)
  deriving Repr, DecidableEq

def Service.perform (service : Service) : Action → State → State
  | .start host launched, s => (service.start host launched s).2
  | .stop host, s => (service.stop host s).2
  | .reload host, s => (service.reload host s).2
  | .restart host ended launched, s => (service.restart host ended launched s).2
  | .leave pids, s => s.leave pids
  | .other pid image, s => { s with processes := launch pid image s.processes }

end MetaSecurity.Services
