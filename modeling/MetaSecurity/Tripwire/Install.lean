import MetaSecurity.Library.Shell.Errexit
import MetaSecurity.Library.Shell.Read
import Mathlib.Logic.Function.Basic

/-!
# twinstall.sh

The script makes the keys of Tripwire, signs its configuration and its policy and initializes its
database. It may be run again, and it ends with the first step that fails. What `twadmin` leaves in
the file that it is to write, and whether `mv` succeeds, is given for each run.

A run that keeps what is there goes from one state of the files to the next, so that `Keeps`
of the shell library says what the script never touches.
-/

namespace MetaSecurity.Tripwire

open Library Shell

/-- The contents of the files by their paths. -/
abbrev Files := Text → Option Text

/-- `[ -f ]` -/
def isFile (files : Files) (path : Text) : Bool := (files path).isSome

/-- `[ -s ]`, which is false of an empty word. -/
def nonEmpty (files : Files) (path : Text) : Bool :=
  path ≠ [] && (files path).any fun content => content ≠ []

/-- `CLOBBER` and `PROMPT`. -/
structure Settings where
  clobber : Bool
  prompt : Bool
  deriving Repr, DecidableEq

/-- The values in the script. -/
def Settings.installed : Settings := ⟨false, true⟩

/-- A call of `twadmin`: its exit status, and what it leaves in the file that it is to write. -/
structure Call where
  status : Nat
  left : Option Text
  deriving Repr, DecidableEq

/-- What a run finds: the output of `uname -n` and the process id, the value of `POLICY_FILE`, which
the script does not set, the `POLFILE` that `twadmin` reads from the signed configuration, and how
the commands end. -/
structure Run where
  hostName : Text
  pid : Text
  policyFile : Text
  polfile : Text
  siteKey : Call
  localKey : Call
  config : Call
  policy : Call
  movesConfig : Bool
  movesPolicy : Bool
  initDatabase : Nat
  deriving Repr, DecidableEq

/-- A file of `CONF_PATH`. -/
def inConfPath (name : Text) : Text := "/etc/tripwire/".toList ++ name

/-- `SITE_KEY` -/
def siteKey : Text := inConfPath "site.key".toList

/-- `LOCAL_KEY` -/
def localKey (hostName : Text) : Text := inConfPath (hostName ++ "-local.key".toList)

/-- `CONFIG_FILE` -/
def configFile : Text := inConfPath "tw.cfg".toList

/-- `${file}.$$.bak` -/
def backupOf (file pid : Text) : Text := file ++ '.' :: pid ++ ".bak".toList

/-- The files after a command that may fail. -/
def ending (status : Nat) (files : Files) : Outcome Files :=
  if status = 0 then .done files else .stopped files

/-- Make a key. -/
def generate (settings : Settings) (path : Text) (call : Call) : Command Files := fun files =>
  let files' :=
    if settings.clobber && !settings.prompt && isFile files path then
      Function.update files path none
    else files
  if isFile files' path && !settings.clobber then .done files'
  else ending call.status (Function.update files' path call.left)

/-- Move a file out of the way. -/
def backUp (settings : Settings) (file pid : Text) (moves : Bool) : Command Files := fun files =>
  if !settings.clobber && nonEmpty files file then
    if moves then
      .done (Function.update (Function.update files (backupOf file pid) (files file)) file none)
    else .stopped files
  else .done files

/-- Have `twadmin` write a signed file. -/
def sign (path : Text) (call : Call) : Command Files := fun files =>
  ending call.status (Function.update files path call.left)

/-- The steps of the script. The database is not among the files. -/
def steps (settings : Settings) (run : Run) : List (Command Files) :=
  [generate settings siteKey run.siteKey,
    generate settings (localKey run.hostName) run.localKey,
    backUp settings configFile run.pid run.movesConfig,
    sign configFile run.config,
    backUp settings run.policyFile run.pid run.movesPolicy,
    sign run.polfile run.policy,
    ending run.initDatabase]

/-- `twinstall.sh` -/
def install (settings : Settings) (run : Run) : Command Files :=
  inOrder (steps settings run)

/-! ## Paths -/

/-- The path of a key. -/
def IsKey (path : Text) : Prop := path = siteKey ∨ ∃ hostName, path = localKey hostName

theorem last_inConfPath {name : Text} {c : Char} (h : name.getLast? = some c) :
    (inConfPath name).getLast? = some c := by
  show ("/etc/tripwire/".toList ++ name).getLast? = some c
  rw [List.getLast?_append, h]
  rfl

theorem last_of_isKey {path : Text} (h : IsKey path) : path.getLast? = some 'y' := by
  cases h with
  | inl hsite =>
      rw [hsite]
      exact last_inConfPath (by decide)
  | inr hlocal =>
      obtain ⟨hostName, hpath⟩ := hlocal
      have hsuffix : "-local.key".toList.getLast? = some 'y' := by decide
      rw [hpath]
      refine last_inConfPath ?_
      rw [List.getLast?_append, hsuffix]
      rfl

theorem last_backupOf (file pid : Text) : (backupOf file pid).getLast? = some 'k' := by
  rw [backupOf, List.getLast?_append]
  rfl

theorem last_configFile : configFile.getLast? = some 'g' :=
  last_inConfPath (by decide)

theorem not_isKey_configFile : ¬ IsKey configFile := fun h => by
  have hlast := last_of_isKey h
  rw [last_configFile] at hlast
  exact absurd hlast (by decide)

theorem not_isKey_backupOf (file pid : Text) : ¬ IsKey (backupOf file pid) := fun h => by
  have hlast := last_of_isKey h
  rw [last_backupOf] at hlast
  exact absurd hlast (by decide)

theorem backupOf_ne_configFile (file pid : Text) : backupOf file pid ≠ configFile := fun h => by
  have hlast := last_backupOf file pid
  rw [h, last_configFile] at hlast
  exact absurd hlast (by decide)

theorem backupOf_ne_self (file pid : Text) : backupOf file pid ≠ file := fun h => by
  have hlength := congrArg List.length h
  simp only [backupOf, List.length_append, List.length_cons] at hlength
  omega

theorem backupOf_pid_injective (file : Text) {pid pid' : Text}
    (h : backupOf file pid = backupOf file pid') : pid = pid' := by
  simpa [backupOf] using h

theorem backupOf_file_injective {file file' : Text} (pid : Text)
    (h : backupOf file pid = backupOf file' pid) : file = file' := by
  simpa [backupOf] using h

end MetaSecurity.Tripwire
