import MetaSecurity.Library.Perl
import MetaSecurity.Library.Shell.Variables
import Mathlib.Data.List.AList
import Mathlib.Data.List.Sort
import Mathlib.Logic.Function.Basic

/-!
# The file functions of the Bastille API

The functions of `API.pm` through which Bastille changes files. Each of them first makes a copy in
the backup directory or prepends a command to the script `revert-actions`, so that `bastille -r`
can take the change back. The state is the regular files and the hash `GLOBAL_SUM`. What the system
calls and the programs they run make of a request is an argument of each function: copies can fail
halfway, and the functions go on after most failures.
-/

namespace MetaSecurity.Bastille

open Library Shell

/-- A regular file, with what `stat` says of it. -/
structure Node where
  content : Text
  mode : Nat
  owner : Nat
  group : Nat
  deriving Repr, DecidableEq

/-- What `GLOBAL_SUM` has of a file. -/
structure Sum where
  filesize : Text
  sum : Text
  deriving Repr, DecidableEq

/-- `GLOBAL_SUM`. -/
abbrev Sums := AList fun _ : Text => Sum

/-- What `getGlobal` knows, `GLOBAL_LOGONLY`, and the attributes of the files that the process
creates. -/
structure Globals where
  backup : Text
  share : Text
  revertActions : Text
  sumCsv : Text
  mv : Text
  rm : Text
  logOnly : Bool
  fileMode : Nat
  uid : Nat
  gid : Nat
  deriving Repr

structure State where
  files : Text → Option Node
  sums : Sums

/-- The file that `open` creates. -/
def Globals.newNode (g : Globals) (content : Text) : Node :=
  ⟨content, g.fileMode, g.uid, g.gid⟩

/-- `${file}.bastille`. -/
def swap (file : Text) : Text :=
  file ++ ".bastille".toList

/-- `$backup_file`. -/
def Globals.backupOf (g : Globals) (file : Text) : Text :=
  g.backup ++ file

/-- `mv $backup_file $file`. -/
def Globals.mvCommand (g : Globals) (file : Text) : Text :=
  g.mv ++ ' ' :: g.backupOf file ++ ' ' :: file

/-- `rm $file`. -/
def Globals.rmCommand (g : Globals) (file : Text) : Text :=
  g.rm ++ ' ' :: file

theorem swap_inj {file file' : Text} : swap file = swap file' ↔ file = file' :=
  ⟨List.append_cancel_right, congrArg swap⟩

theorem backupOf_inj {g : Globals} {file file' : Text} :
    g.backupOf file = g.backupOf file' ↔ file = file' :=
  ⟨List.append_cancel_left, congrArg g.backupOf⟩

/-! ## Files -/

/-- `-e $file`. -/
def State.exists (s : State) (file : Text) : Bool :=
  (s.files file).isSome

def State.write (s : State) (file : Text) (node : Option Node) : State :=
  { s with files := Function.update s.files file node }

@[simp] theorem write_files_self (s : State) (file : Text) (node : Option Node) :
    (s.write file node).files file = node :=
  Function.update_self ..

@[simp] theorem write_files_of_ne (s : State) {file file' : Text} (h : file' ≠ file)
    (node : Option Node) : (s.write file node).files file' = s.files file' :=
  Function.update_of_ne h ..

@[simp] theorem write_sums (s : State) (file : Text) (node : Option Node) :
    (s.write file node).sums = s.sums := rfl

/-- `rename`. -/
def rename (renames : Bool) (source target : Text) (s : State) : Bool × State :=
  match s.files source with
  | some node =>
      if renames then (true, (s.write source none).write target (some node)) else (false, s)
  | none => (false, s)

/-- The contents of a file are replaced; a file that was not there is created. -/
def overwrite (g : Globals) (file content : Text) (s : State) : State :=
  match s.files file with
  | some node => s.write file (some { node with content := content })
  | none => s.write file (some (g.newNode content))

/-- What a copy leaves behind. -/
inductive Copied where
  | complete
  | untouched
  | cut (left : Node)
  deriving Repr, DecidableEq

/-- What a copy leaves at a file that was not there. -/
def Copied.leaves (source : Option Node) : Copied → Option Node
  | complete => source
  | untouched => none
  | cut left => some left

/-! ## Opening a file and its swap file -/

/-- What the two calls of `open` come to. -/
structure OpenCalls where
  reads : Bool
  writes : Bool
  deriving Repr, DecidableEq

/-- What `B_open_plus` leaves: its result, what can be read from the original, and whether the swap
file can be written. -/
structure Opened where
  retval : Bool
  original : Option Text
  writable : Bool
  deriving Repr, DecidableEq

/-- `B_open_plus`. Both files are opened even if one of them cannot be. -/
def openPlus (g : Globals) (calls : OpenCalls) (file : Text) (s : State) : Opened × State :=
  if g.logOnly then (⟨true, none, false⟩, s)
  else if file = [] then (⟨false, none, false⟩, s)
  else if s.exists (swap file) then (⟨false, none, false⟩, s)
  else
    let original := if calls.reads then (s.files file).map Node.content else none
    (⟨original.isSome && calls.writes, original, calls.writes⟩,
      if calls.writes then s.write (swap file) (some (g.newNode [])) else s)

/-- `print` to the swap file. -/
def printTo (g : Globals) (opened : Opened) (file content : Text) (s : State) : State :=
  if opened.writable then overwrite g (swap file) content s else s

/-! ## The script that takes changes back -/

structure LogCalls where
  opens : OpenCalls
  renames : Bool
  deriving Repr, DecidableEq

/-- `B_revert_log` creates the script where there is none. -/
def createScript (g : Globals) (s : State) : State :=
  if s.exists g.revertActions then s else s.write g.revertActions (some ⟨[], 0o700, 0, 0⟩)

/-- `B_revert_log`: the command is prepended, whatever came of `B_open_plus`. -/
def revertLog (g : Globals) (calls : LogCalls) (command : Text) (s : State) : State :=
  let opened := openPlus g calls.opens g.revertActions (createScript g s)
  let kept := Perl.shifted (Perl.lines (opened.1.original.getD []))
  let printed := printTo g opened.1 g.revertActions (command ++ '\n' :: kept.flatten) opened.2
  let renamed := rename calls.renames (swap g.revertActions) g.revertActions printed
  if renamed.1 then
    renamed.2.write g.revertActions
      ((renamed.2.files g.revertActions).map fun node => ⟨node.content, 0o700, 0, 0⟩)
  else renamed.2

structure BackupCalls where
  copy : Copied
  log : LogCalls
  deriving Repr, DecidableEq

/-- `B_backup_file`. The command is recorded also where the copy failed. -/
def backupFile (g : Globals) (calls : BackupCalls) (file : Text) (s : State) : Bool × State :=
  let s' :=
    if s.exists file && !s.exists (g.backupOf file) then
      revertLog g calls.log (g.mvCommand file)
        (s.write (g.backupOf file) (calls.copy.leaves (s.files file)))
    else s
  (s.exists file && s'.exists (g.backupOf file), s')

/-! ## Sums -/

/-- The size and the sum that `cksum` prints, if it succeeds, and whether `sum.csv` can be
opened. -/
structure SumCalls where
  cksum : Option (Nat × Nat)
  opens : Bool
  deriving Repr, DecidableEq

/-- `sort keys %GLOBAL_SUM`, each with what the hash has of it. -/
def sortedRows (sums : Sums) : List ((_ : Text) × Sum) :=
  sums.entries.mergeSort fun row row' => Perl.sortsBefore row.1 row'.1

/-- `"$file,$GLOBAL_SUM\x7b$file\x7d\x7bfilesize\x7d,$GLOBAL_SUM\x7b$file\x7d\x7bsum\x7d\n"`. -/
def sumLine (row : (_ : Text) × Sum) : Text :=
  row.1 ++ ',' :: row.2.filesize ++ ',' :: row.2.sum ++ ['\n']

/-- `B_write_sums`. `open` has created the file when the names are looked for. -/
def writeSums (g : Globals) (opens : Bool) (s : State) : State :=
  if s.sums.entries.isEmpty || !opens then s
  else
    let s := overwrite g g.sumCsv [] s
    overwrite g g.sumCsv (((sortedRows s.sums).filter fun row => s.exists row.1).flatMap sumLine) s

/-- `B_set_sum`. -/
def setSum (g : Globals) (calls : SumCalls) (file : Text) (s : State) : State :=
  if s.exists file then
    match calls.cksum with
    | some (filesize, sum) => writeSums g calls.opens
        { s with sums := s.sums.insert file ⟨decimal filesize, decimal sum⟩ }
    | none => s
  else s

/-! ## Changing files -/

structure CloseCalls where
  closes : Bool
  chmod : Bool
  chown : Bool
  backup : BackupCalls
  renames : Bool
  sum : SumCalls
  deriving Repr, DecidableEq

/-- The swap file gets the attributes of the original. -/
def retain (calls : CloseCalls) (file : Text) (s : State) : State :=
  match s.files file, s.files (swap file) with
  | some old, some new => s.write (swap file) (some {
      content := new.content
      mode := if calls.chmod then old.mode else new.mode
      owner := if calls.chown then old.owner else new.owner
      group := if calls.chown then old.group else new.group })
  | _, _ => s

/-- `B_close_plus`. -/
def closePlus (g : Globals) (calls : CloseCalls) (file : Text) (s : State) : Bool × State :=
  if file = [] || !s.exists file then (false, s)
  else if g.logOnly then (true, s)
  else if !calls.closes then (false, s)
  else
    let s := retain calls file s
    let (_, s) := backupFile g calls.backup file s
    let (_, s) := rename calls.renames (swap file) file s
    (true, setSum g calls.sum file s)

/-- How every editing function goes about it: `B_open_plus`, the new contents into the swap file,
`B_close_plus`. -/
def edit (g : Globals) (calls : OpenCalls × CloseCalls) (file : Text) (change : Text → Text)
    (s : State) : Bool × State :=
  let (opened, s) := openPlus g calls.1 file s
  if opened.retval then
    closePlus g calls.2 file (printTo g opened file (change (opened.original.getD [])) s)
  else (false, s)

structure DeleteCalls where
  backup : BackupCalls
  unlinks : Bool
  deriving Repr, DecidableEq

/-- `B_delete_file`. -/
def deleteFile (g : Globals) (calls : DeleteCalls) (file : Text) (s : State) : Bool × State :=
  if g.logOnly then (true, s)
  else
    match backupFile g calls.backup file s with
    | (true, s) => if calls.unlinks then (true, s.write file none) else (false, s)
    | (false, s) => (false, s)

structure CreateCalls where
  opens : Bool
  log : LogCalls
  deriving Repr, DecidableEq

/-- `B_create_file`. -/
def createFile (g : Globals) (calls : CreateCalls) (file : Text) (s : State) : Bool × State :=
  if file = [] || s.exists file then (false, s)
  else if g.logOnly then (true, s)
  else if calls.opens then
    (true, revertLog g calls.log (g.rmCommand file ++ [' ', '\n'])
      (s.write file (some { g.newNode [] with mode := 0o700 })))
  else (false, s)

structure CopyCalls where
  backup : BackupCalls
  copy : Copied
  log : LogCalls
  sum : SumCalls
  deriving Repr, DecidableEq

/-- `B_cp`. -/
def cp (g : Globals) (calls : CopyCalls) (source target : Text) (s : State) : Bool × State :=
  let s := if s.exists target then (backupFile g calls.backup target s).2 else s
  let (retval, s) := match s.files source, calls.copy with
    | some node, .complete =>
        (true, revertLog g calls.log (g.rmCommand target ++ ['\n'])
          (overwrite g target node.content s))
    | some _, .cut left => (false, s.write target (some left))
    | _, _ => (false, s)
  (retval, setSum g calls.sum target s)

/-- `B_place`: the source is a file of the `share` directory. -/
def place (g : Globals) (calls : CopyCalls) (source target : Text) (s : State) : Bool × State :=
  cp g calls (g.share ++ source) target s

/-! ## Taking the changes back -/

/-- The programs that the script calls, by the words of the command. -/
structure Commands where
  run : List Text → State → State

/-- Every command of the script succeeds: `mv` moves a file that is there, and `rm` removes one. -/
structure Commands.Succeed (commands : Commands) (g : Globals) : Prop where
  nothing : ∀ s, commands.run [] s = s
  moves : ∀ source target s,
    commands.run [g.mv, source, target] s = (rename true source target s).2
  removes : ∀ file s, commands.run [g.rm, file] s = s.write file none

/-- The script. -/
def State.revertScript (g : Globals) (s : State) : Text :=
  ((s.files g.revertActions).map Node.content).getD []

/-- `bastille -r` runs the script. -/
def revert (commands : Commands) (g : Globals) (s : State) : State :=
  (allRecords '\n' (s.revertScript g)).foldl (fun s line => commands.run (fields isIfs line) s) s

/-- Programs that do only this. -/
def Commands.plain (g : Globals) : Commands where
  run words s :=
    match words with
    | [command, source, target] => if command = g.mv then (rename true source target s).2 else s
    | [command, file] => if command = g.rm then s.write file none else s
    | _ => s

theorem Commands.plain_succeed (g : Globals) : (Commands.plain g).Succeed g where
  nothing _ := rfl
  moves _ _ _ := if_pos rfl
  removes _ _ := if_pos rfl

/-! ## Runs -/

/-- The calls of the functions. -/
inductive Operation where
  | edit (calls : OpenCalls × CloseCalls) (file : Text) (change : Text → Text)
  | delete (calls : DeleteCalls) (file : Text)
  | create (calls : CreateCalls) (file : Text)
  | cp (calls : CopyCalls) (source target : Text)
  | place (calls : CopyCalls) (source target : Text)

/-- The file that a call is about. -/
def Operation.target : Operation → Text
  | edit _ file _ => file
  | delete _ file => file
  | create _ file => file
  | cp _ _ target => target
  | place _ _ target => target

def perform (g : Globals) : Operation → State → State
  | .edit calls file change, s => (Bastille.edit g calls file change s).2
  | .delete calls file, s => (deleteFile g calls file s).2
  | .create calls file, s => (createFile g calls file s).2
  | .cp calls source target, s => (Bastille.cp g calls source target s).2
  | .place calls source target, s => (Bastille.place g calls source target s).2

end MetaSecurity.Bastille
