import MetaSecurity.Library.Shell.Read
import MetaSecurity.Library.Fields

/-!
# rpm-chksec.sh

The script looks at the ELF files of a package. With the name of a package it prints a row for each
of them, and with `--all` it prints one row for each installed package. What `readelf`, `find` and
the other commands say of a file is given, and so are the words that `rpm -ql` prints for a package.
Column widths and escape sequences are not modelled, colours are.
-/

namespace MetaSecurity.Packages

open Library Shell

/-! ## What the script finds out about a file -/

/-- The RELRO column. -/
inductive Relro where
  | no
  | part
  | full
  deriving Repr, DecidableEq

/-- The PIE column. -/
inductive Pie where
  | no
  | dso
  | yes
  deriving Repr, DecidableEq

/-- The TYPE column. -/
inductive Kind where
  | daemon
  | library
  | setuid
  | setgid
  | setcap
  | networkIp
  | networkLocal
  | exec
  deriving Repr, DecidableEq

/-- What the commands say about a path. -/
structure Attributes where
  isFile : Bool
  readable : Bool
  elf : Bool
  gnuRelro : Bool
  bindNow : Bool
  dyn : Bool
  debug : Bool
  setuid : Bool
  setgid : Bool
  capabilities : Nat
  connects : Bool
  resolves : Bool
  content : Text
  deriving Repr, DecidableEq

/-- The machine, and what the shell makes of the tests `[ $EUID != 0 ]` and `[[ ]]`, which not every
`sh` has. -/
structure Host where
  unprivileged : Bool
  doubleBracket : Bool
  filecap : Bool
  which : Text → Text
  attributes : Text → Attributes
  rpm : Text → Option (List Text)

def Attributes.relro (a : Attributes) : Relro :=
  if a.bindNow then .full else if a.gnuRelro then .part else .no

def Attributes.pie (a : Attributes) : Pie :=
  if a.dyn then (if a.debug then .yes else .dso) else .no

/-! ## Daemons -/

/-- `grep` for a text in which `none` stands for any character. -/
def matchesAt : List (Option Char) → Text → Bool
  | [], _ => true
  | _ :: _, [] => false
  | c :: pattern, d :: t => (c.all fun c => c = d) && matchesAt pattern t

def grep (pattern : List (Option Char)) (t : Text) : Bool :=
  t.tails.any (matchesAt pattern)

/-- A pattern of ordinary characters. -/
def word (t : String) : List (Option Char) := t.toList.map some

/-- `\/etc\/rc.d\/init.d`. -/
def initScript : List (Option Char) :=
  word "/etc/rc" ++ none :: word "d/init" ++ none :: word "d"

/-- `$`, for in backquotes that is what `\$` comes to. It matches every line. -/
def endOfLine : List (Option Char) := []

def basename (path : Text) : Text :=
  let path' := path.rdropWhile fun c => c = '/'
  if path' = [] then path.take 1 else (path'.splitOn '/').getLastD []

def lines (t : Text) : List Text := t.splitOn '\n'

/-- The white space at which the shell and `awk` split. -/
def isSeparator (c : Char) : Bool := c = ' ' || c = '\t' || c = '\n'

/-- `grep -i '^ExecStart='`, `tr '=' ' '` and `awk '{ print $2 }'`. -/
def execStart (line : Text) : Option Text :=
  if (line.take 10).map Char.toLower = "execstart=".toList then
    (fields isSeparator (line.map fun c => if c = '=' then ' ' else c))[1]?
  else none

/-- The daemons that a file of the package names, and whether it is an init script that names
none. -/
def daemonsIn (host : Host) (f : Text) : List Text × Bool :=
  let a := host.attributes f
  if !a.isFile then ([], false)
  else if grep initScript f then
    let n := basename f
    if host.which n ≠ [] then (fields isSeparator (host.which n), false)
    else if host.which (n ++ ['d']) ≠ [] then (fields isSeparator (host.which (n ++ ['d'])), false)
    else
      let t := (lines a.content).filter fun line =>
        grep (word "bin") line && grep (word "exit 5") line && !grep endOfLine line
      if t ≠ [] then (t.flatMap (fields isSeparator), false) else ([], true)
  else if grep (word "/lib/systemd/") f then ((lines a.content).filterMap execStart, false)
  else ([], false)

/-- `DAEMON` after the first loop of `do_one`. -/
def daemons (host : Host) (files : List Text) : List Text :=
  files.flatMap fun f => (daemonsIn host f).1

/-- `APP`. -/
def kind (host : Host) (daemons : List Text) (f : Text) : Kind :=
  let a := host.attributes f
  if daemons.contains f then .daemon
  else if grep (word "/lib") f && grep (word ".so") f then .library
  else if a.setuid then .setuid
  else if a.setgid then .setgid
  else if host.filecap && 0 < a.capabilities then .setcap
  else if a.connects then (if a.resolves then .networkIp else .networkLocal)
  else .exec

/-! ## Output -/

inductive Color where
  | green
  | yellow
  | red
  deriving Repr, DecidableEq

structure Cell (α : Type) where
  value : α
  color : Color
  deriving Repr, DecidableEq

/-- A row of the table for a package. -/
structure Row where
  path : Text
  kind : Kind
  relro : Cell Relro
  pie : Cell Pie
  deriving Repr, DecidableEq

/-- What is printed for a package. -/
inductive Line where
  | notInstalled (package : Text)
  | daemonRules (file : Text)
  | retest (what : Text)
  | row (row : Row)
  deriving Repr, DecidableEq

/-- A row of the table of all packages. -/
structure Summary where
  relro : Cell Bool
  pie : Cell Bool
  kind : Option Kind
  deriving Repr, DecidableEq

/-- The kinds for which position independence counts. -/
def Kind.exposed : Kind → Bool
  | daemon => true
  | setuid => true
  | setgid => true
  | setcap => true
  | networkIp => true
  | networkLocal => true
  | library => false
  | exec => false

/-- The row that is printed for a file. -/
def detail (path : Text) (kind : Kind) (relro : Relro) (pie : Pie) : Row :=
  if kind.exposed then
    { path, kind
      relro := ⟨relro, if relro = .full then .green else if relro = .part then .yellow else .red⟩
      pie := ⟨pie, if pie = .yes then .green else .red⟩ }
  else if kind = .library then
    { path, kind
      relro := ⟨relro, if relro = .full ∨ relro = .part then .green else .red⟩
      pie := ⟨pie, .green⟩ }
  else
    { path, kind
      relro := ⟨relro, if relro = .no then .red else .green⟩
      pie := ⟨pie, .green⟩ }

/-! ## do_one -/

inductive Mode where
  | single
  | all
  deriving Repr, DecidableEq

/-- The variables that `do_one` leaves to the loop over all packages; `true` is `yes`. -/
structure Vars where
  skipCurrent : Bool
  relroSum : Bool
  pieSum : Bool
  appSum : Option Kind
  deriving Repr, DecidableEq

/-- What a file does to the variables. -/
def tally (kind : Kind) (relro : Relro) (pie : Pie) (v : Vars) : Vars :=
  if kind.exposed then
    let v := if relro = .no then { v with relroSum := false, appSum := some kind } else v
    if pie = .no then { v with pieSum := false, appSum := some kind } else v
  else if kind = .library then
    if relro = .no then { v with relroSum := false, appSum := some kind } else v
  else if relro = .no then { v with relroSum := false, appSum := some kind } else v

/-- The body of the second loop of `do_one`. -/
def checkFile (mode : Mode) (host : Host) (package : Text) (daemons : List Text) (f : Text)
    (v : Vars) : List Line × Vars :=
  let a := host.attributes f
  if !a.isFile then ([], v)
  else if f.head? ≠ some '/' then ([], v)
  else if !a.readable && host.unprivileged then
    match mode with
    | .single => ([.retest f], v)
    | .all => ([.retest package], { v with skipCurrent := true })
  else if !a.elf then ([], v)
  else
    match mode with
    | .single => ([.row (detail f (kind host daemons f) a.relro a.pie)], v)
    | .all => ([], tally (kind host daemons f) a.relro a.pie v)

def checkFiles (mode : Mode) (host : Host) (package : Text) (daemons : List Text) :
    List Text → Vars → List Line × Vars
  | [], v => ([], v)
  | f :: files, v =>
      let (printed, v) := checkFile mode host package daemons f v
      let (rest, v) := checkFiles mode host package daemons files v
      (printed ++ rest, v)

/-- `do_one`, and whether it ends the script. -/
def doOne (mode : Mode) (host : Host) (package : Text) (v : Vars) : List Line × Vars × Bool :=
  match host.rpm package with
  | none => ([.notInstalled package], v, mode = .single)
  | some files =>
      let unknown := (files.filter fun f => (daemonsIn host f).2).map Line.daemonRules
      let (printed, v) :=
        checkFiles mode host package (daemons host files) files { v with skipCurrent := false }
      ((if mode = .single then unknown else []) ++ printed, v, false)

/-! ## The two ways to call the script -/

/-- `${f%%.rpm}` of the base name. -/
def packageName (argument : Text) : Text :=
  let f := basename argument
  if ".rpm".toList <:+ f then f.take (f.length - 4) else f

/-- The variables before they are set. -/
def unset : Vars := ⟨false, true, true, none⟩

/-- With the names of packages: the output, and the exit status. -/
def runSingle (host : Host) : List Text → List Line × Nat
  | [] => ([], 0)
  | argument :: arguments =>
      match doOne .single host (packageName argument) unset with
      | (printed, _, true) => (printed, 1)
      | (printed, _, false) =>
          let (rest, status) := runSingle host arguments
          (printed ++ rest, status)

/-- The row of a package that is not skipped. -/
def summary (v : Vars) : Summary where
  relro := ⟨v.relroSum, if v.relroSum then .green else .red⟩
  pie :=
    if v.pieSum then ⟨true, .green⟩
    else ⟨false, if v.appSum = some .networkLocal then .yellow else .red⟩
  kind := if v.pieSum && v.relroSum then none else v.appSum

/-- The body of the loop over all packages. -/
def summarize (host : Host) (package : Text) (v : Vars) : (List Line × Option Summary) × Vars :=
  let (printed, v, _) :=
    doOne .all host package { v with relroSum := true, pieSum := true, appSum := none }
  ((printed, if host.doubleBracket && v.skipCurrent then none else some (summary v)), v)

/-- With `--all`: what is printed for each package. -/
def runAll (host : Host) : List Text → Vars → List (List Line × Option Summary)
  | [], _ => []
  | package :: packages, v =>
      let (printed, v) := summarize host package v
      printed :: runAll host packages v

end MetaSecurity.Packages
