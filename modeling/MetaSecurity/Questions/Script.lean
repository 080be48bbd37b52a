import MetaSecurity.Library.Python
import Mathlib.Logic.Function.Basic

/-!
# set_required_questions.py

The script that Bastille's `do_install` runs on its configuration: each line `Module.question=value`
adds a distribution to the `REQUIRE_DISTRO` field of a question in `Questions/Module.txt`. The
arguments are those that `argparse` has accepted. Each of the three loops of `add_requires` goes on
where the one before stopped, since they share the iterator of the file.

A file is known by the directory entry that its path leads to, so two paths may name one file;
entries are regular files. `copystat` only changes what is not modelled.
-/

namespace MetaSecurity.Questions

open Library Python

/-! ## Exceptions -/

/-- The exceptions of class `ValueError`: those that the script raises, and the failed unpacking of
a number of values. -/
inductive ValueError where
  | unpack (values : Nat)
  | coordinates (coord line : Text)
  | configLine (line : Text) (cause : ValueError)
  | requireDistro (cause : ValueError)
  | questionsLine (line : Text)
  | questionsDir (path : Text)
  | configFile (path : Text)
  | other (text : Text)
  deriving Repr, DecidableEq

/-- What `str` makes of the exception; the text of a failed unpacking is Python's. -/
def ValueError.text (unpackText : Nat → Text) : ValueError → Text
  | .unpack values => unpackText values
  | .coordinates coord line =>
      "Badly formatted coordinates ".toList ++ coord ++ " in line ".toList ++ strip line ++
        ".".toList
  | .configLine line cause =>
      "Skipping badly formatted line ".toList ++ strip line ++ ", ".toList ++
        cause.text unpackText
  | .requireDistro cause =>
      "Error splitting REQUIRE_DISTRO line: ".toList ++ cause.text unpackText
  | .questionsLine line =>
      "Unexpected line ".toList ++ strip line ++ " in questions file.".toList
  | .questionsDir path =>
      "Specified Questions directory ".toList ++ path ++
        " does not exist or is not a directory.".toList
  | .configFile path =>
      "Specified configuration file ".toList ++ path ++ " not found.".toList
  | .other text => text

/-- The exceptions that `main` handles. -/
inductive Raised where
  | ioError (text : Text)
  | valueError (error : ValueError)
  deriving Repr, DecidableEq

/-- The text that `main` exits with. -/
def Raised.fatal (unpackText : Nat → Text) : Raised → Text
  | .ioError text => "Fatal error reading or writing file:\n".toList ++ text
  | .valueError error => "Fatal error:\n".toList ++ error.text unpackText

/-! ## The configuration -/

/-- A pair of the name of a questions file and the identifier of a question. -/
abbrev Coordinates := Text × Text

/-- A line that is not a comment. -/
def isSetting (line : Text) : Bool := !startsWith "#".toList line

/-- The coordinates on a line, or the exception for a badly formatted one. -/
def coordinates (line : Text) : Except ValueError Coordinates :=
  match splitTwo '=' line with
  | none => .error (.configLine line (.unpack (line.splitOn '=').length))
  | some (coord, _) =>
      match splitTwo '.' coord with
      | none => .error (.configLine line (.coordinates coord line))
      | some (fname, ident) => .ok (fname, ident)

/-- `get_config`: the pairs that are generated, and the exception that ends them. -/
def getConfig : List Text → List Coordinates × Option ValueError
  | [] => ([], none)
  | line :: rest =>
      if isSetting line then
        match coordinates line with
        | .error e => ([], some e)
        | .ok pair => (pair :: (getConfig rest).1, (getConfig rest).2)
      else getConfig rest

/-! ## The questions -/

/-- The line starts a question. -/
def isLabel (line : Text) : Bool := startsWith "LABEL:".toList line

/-- The line has the distributions of a question. -/
def isRequire (line : Text) : Bool := startsWith "REQUIRE_DISTRO".toList line

/-- `check_contains`. -/
def checkContains (line name : Text) : Except ValueError Bool :=
  match splitTwo ':' line with
  | none => .error (.requireDistro (.unpack (line.splitOn ':').length))
  | some (_, distros) => .ok ((words distros).contains name)

/-- The line with the distribution at its end. -/
def withDistro (distro line : Text) : Text := rstrip line ++ ' ' :: distro ++ ['\n']

/-- The second and the third loop of `add_requires`. -/
def addDistro (distro : Text) : List Text → Except ValueError (List Text)
  | [] => .ok []
  | line :: rest =>
      if isRequire line then
        match checkContains line distro with
        | .error e => .error e
        | .ok true => .ok (line :: rest)
        | .ok false => .ok (withDistro distro line :: rest)
      else (addDistro distro rest).map (line :: ·)

/-- `add_requires`. -/
def addRequires (theIdent distro : Text) : List Text → Except ValueError (List Text)
  | [] => .ok []
  | line :: rest =>
      if isLabel line then
        match splitTwo ':' line with
        | none => .error (.questionsLine line)
        | some (_, ident) =>
            -- `break`: from here on labels are not looked at
            if strip ident = theIdent then (addDistro distro rest).map (line :: ·)
            else (addRequires theIdent distro rest).map (line :: ·)
      else (addRequires theIdent distro rest).map (line :: ·)

/-! ## The run -/

/-- The contents of the files by their directory entries. -/
abbrev Files (ι : Type*) := ι → Option Text

/-- The options of the command line, with absolute paths. -/
structure Options where
  configFile : Text
  questionsDir : Text
  distro : Text
  debug : Bool

/-- The surroundings of the script: what the two paths of the command line are, the text of the
configuration file if it can be read, where paths lead, and whether reading a questions file or
putting the new one in its place fails. A failed replacement may leave the old file, a part of the
new one, or none. -/
structure System (ι : Type*) where
  questionsIsDir : Bool
  configIsFile : Bool
  config : Option Text
  configFailure : Raised
  locate : Text → ι
  reading : Text → Files ι → Option Raised
  replacing : Text → Files ι → Option (Raised × Option Text)
  unpackText : Nat → Text

/-- `os.path.join`. -/
def pathJoin (directory name : Text) : Text :=
  if startsWith ['/'] name then name
  else if directory = [] ∨ directory.getLast? = some '/' then directory ++ name
  else directory ++ '/' :: name

/-- The path of a module's questions file. -/
def questionsFile (opts : Options) (qfile : Text) : Text :=
  pathJoin opts.questionsDir (qfile ++ ".txt".toList)

/-- Python's text for a file that does not exist. -/
def noSuchFile (path : Text) : Text :=
  "[Errno 2] No such file or directory: ".toList ++ reprText path

/-- How a run ended: the files, the coordinates whose file was rewritten, the exceptions that were
caught, and the text of `sys.exit` if it was called. -/
structure Run (ι : Type*) where
  files : Files ι
  processed : List Coordinates
  caught : List Raised
  exit : Option Text

/-- The exit status. -/
def Run.status {ι : Type*} (run : Run ι) : Nat :=
  if run.exit.isSome then 1 else 0

variable {ι : Type*} [DecidableEq ι]

/-- `xform_file`: the files, and the exception if one was raised. -/
def xformFile (sys : System ι) (files : Files ι) (qfile distro qlabel : Text) :
    Files ι × Option Raised :=
  match files (sys.locate qfile), sys.reading qfile files with
  | none, _ => (files, some (.ioError (noSuchFile qfile)))
  | some _, some raised => (files, some raised)
  | some text, none =>
      match addRequires qlabel distro (readlines text) with
      | .error e => (files, some (.valueError e))
      | .ok out =>
          match sys.replacing qfile files with
          | some (raised, left) =>
              (Function.update files (sys.locate qfile) left, some raised)
          | none => (Function.update files (sys.locate qfile) (some out.flatten), none)

/-- The loop of `main` over the generated pairs. -/
def transform (sys : System ι) (opts : Options) :
    List Coordinates → Files ι → Files ι × List Coordinates × Option Raised
  | [], files => (files, [], none)
  | (qfile, qlabel) :: pairs, files =>
      match xformFile sys files (questionsFile opts qfile) opts.distro qlabel with
      | (files', some raised) => (files', [], some raised)
      | (files', none) =>
          let (files'', processed, raised) := transform sys opts pairs files'
          (files'', (qfile, qlabel) :: processed, raised)

/-- The second `try` block of `main`. -/
def processConfig (sys : System ι) (opts : Options) (files : Files ι) :
    Files ι × List Coordinates × Option Raised :=
  match sys.config with
  | none => (files, [], some sys.configFailure)
  | some text =>
      let (pairs, malformed) := getConfig (readlines text)
      match transform sys opts pairs files with
      | (files', processed, some raised) => (files', processed, some raised)
      | (files', processed, none) => (files', processed, malformed.map .valueError)

/-- `check_args`. -/
def checkArgs (sys : System ι) (opts : Options) : Option ValueError :=
  if !sys.questionsIsDir then some (.questionsDir opts.questionsDir)
  else if !sys.configIsFile then some (.configFile opts.configFile)
  else none

/-- `main` from the second `try` block on, with the exceptions that were caught before it. -/
def mainRest (sys : System ι) (opts : Options) (files : Files ι) (caught : List Raised) : Run ι :=
  match processConfig sys opts files with
  | (files', processed, none) => ⟨files', processed, caught, none⟩
  | (files', processed, some raised) =>
      ⟨files', processed, caught ++ [raised],
        if opts.debug then none else some (raised.fatal sys.unpackText)⟩

/-- `main`. -/
def main (sys : System ι) (opts : Options) (files : Files ι) : Run ι :=
  match checkArgs sys opts with
  | none => mainRest sys opts files []
  | some e =>
      if opts.debug then mainRest sys opts files [.valueError e]
      else ⟨files, [], [.valueError e], some (Raised.fatal sys.unpackText (.valueError e))⟩

end MetaSecurity.Questions
