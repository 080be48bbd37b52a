import MetaSecurity.Library.Selection
import MetaSecurity.Library.Shell.Read

/-!
# The rules in aide.conf

AIDE's configuration as the recipe `aide_0.17.4.bb` installs it, for the target and for the build
host, with one rule for each of `AIDE_INCLUDE_DIRS` and `AIDE_SKIP_DIRS`. The lists are given by
the words that the shell makes of the variables in its `for` loops. The comments and empty lines of
`aide.conf` are left out.
-/

namespace MetaSecurity.Aide

open Library Shell

/-! ## The program -/

/-- A rule: the files whose paths match a regular expression, or all but those. -/
inductive Rule where
  | select (regex : Text)
  | negate (regex : Text)
  deriving Repr, DecidableEq

/-- The rule on a line of `aide.conf`: a regular expression starts with a slash, and the names of
the attributes follow after a blank. -/
def ruleOf : Text → Option Rule
  | '!' :: regex => some (.negate (regex.takeWhile fun c => !isIfs c))
  | '/' :: rest => some (.select (('/' :: rest).takeWhile fun c => !isIfs c))
  | _ => none

/-- What is used of AIDE: whether a regular expression matches a path from its start, and what it
records of a file. -/
structure Program where
  isMatch : Text → Text → Bool
  attributes : Text → Text

namespace Program

/-- The line has a positive rule that matches the file. -/
def positive (aide : Program) (line file : Text) : Bool :=
  match ruleOf line with
  | some (.select regex) => aide.isMatch regex file
  | _ => false

/-- The line has a negated rule that matches the file. -/
def negative (aide : Program) (line file : Text) : Bool :=
  match ruleOf line with
  | some (.negate regex) => aide.isMatch regex file
  | _ => false

/-- The configuration selects the file. -/
def selects (aide : Program) (conf : List Text) (file : Text) : Bool :=
  selected aide.positive aide.negative conf file

/-- A line of the database: the path of a file and what is recorded of it. -/
def entry (aide : Program) (file : Text) : Text :=
  file ++ ' ' :: aide.attributes file

/-- `aide --init`: one entry for each existing file that the configuration selects. -/
def init (aide : Program) (conf hostFiles : List Text) : List Text :=
  (hostFiles.filter (aide.selects conf)).map aide.entry

end Program

/-- The path of an entry. -/
def entryName (line : Text) : Text :=
  line.takeWhile (· ≠ ' ')

/-! ## The configuration -/

/-- A definition in `aide.conf`. -/
def define (name value : Text) : Text :=
  "@@define ".toList ++ name ++ ' ' :: value

/-- `aide.conf` in the recipe's directory, with the directories of the database and of the log. -/
def baseConf (dbDir logDir : Text) : List Text := [
  define "DBDIR".toList dbDir,
  define "LOGDIR".toList logDir,
  "database_in=file:@@{DBDIR}/aide.db.gz".toList,
  "database_out=file:@@{DBDIR}/aide.db.gz".toList,
  "gzip_dbout=yes".toList,
  "log_level=warning".toList,
  "report_url=file:@@{LOGDIR}/aide.log".toList,
  "report_url=stdout".toList,
  "FIPSR = p+u+g+s+acl+xattrs+sha256".toList,
  "ALLXTRAHASHES = sha1+rmd160+sha256+sha512+tiger".toList,
  "EVERYTHING = R+ALLXTRAHASHES".toList,
  "NORMAL = FIPSR+sha512".toList,
  "DIR = p+u+g+acl+xattrs".toList,
  "PERMS = p+u+g+acl".toList,
  "LOG = >".toList,
  "LSPP = FIPSR+sha512".toList,
  "DATAONLY =  p+u+g+s+acl+xattrs+sha256".toList]

/-- A word of `AIDE_INCLUDE_DIRS` or of `AIDE_SKIP_DIRS`. -/
inductive Directive where
  | includeDir (dir : Text)
  | skipDir (dir : Text)
  deriving Repr, DecidableEq

/-- The line that is appended for a word, with a directory before it; `echo` is what the shell's
`echo` prints for its argument. -/
def ruleLine (echo : Text → Text) (directory : Text) : Directive → Text
  | .includeDir dir => echo (directory ++ dir ++ " NORMAL".toList)
  | .skipDir dir => echo ('!' :: directory ++ dir)

/-- The two variables. -/
structure Lists where
  aideIncludeDirs : List Text
  aideSkipDirs : List Text

/-- The words in the order of the loops. -/
def Lists.directives (lists : Lists) : List Directive :=
  lists.aideIncludeDirs.map .includeDir ++ lists.aideSkipDirs.map .skipDir

/-- The lines that the loops append. -/
def Lists.rules (lists : Lists) (echo : Text → Text) (directory : Text) : List Text :=
  lists.directives.map (ruleLine echo directory)

/-- `do_install:append`: `/etc/aide.conf` of the target. -/
def targetConf (echo : Text → Text) (lists : Lists) : List Text :=
  baseConf "/usr/lib/aide".toList "/usr/lib/aide/logs".toList ++ lists.rules echo []

/-- `do_install:class-native`: `aide.conf` in `STAGING_AIDE_DIR`, which has no rules yet. -/
def nativeConf (stagingAideDir : Text) : List Text :=
  baseConf (stagingAideDir ++ "/lib".toList) (stagingAideDir ++ "/lib/logs".toList)

/-! ## Lemmas -/

/-- The file of the recipe has no rules. -/
theorem ruleOf_baseConf {dbDir logDir line : Text} (h : line ∈ baseConf dbDir logDir) :
    ruleOf line = none := by
  have hlines : ∀ other ∈ (baseConf [] []).drop 2, ruleOf other = none := by decide
  rcases List.mem_cons.mp h with rfl | h
  · rfl
  rcases List.mem_cons.mp h with rfl | h
  · rfl
  exact hlines line h

/-- Lines without rules match nothing. -/
theorem matchedBy_of_no_rules (aide : Program) {conf : List Text}
    (h : ∀ line ∈ conf, ruleOf line = none) (file : Text) :
    matchedBy aide.positive conf file = false ∧ matchedBy aide.negative conf file = false := by
  constructor
  · refine List.any_eq_false.mpr fun line hline => ?_
    simp [Program.positive, h line hline]
  · refine List.any_eq_false.mpr fun line hline => ?_
    simp [Program.negative, h line hline]

/-- The lines before the rules do not matter. -/
theorem selects_baseConf_append (aide : Program) (dbDir logDir : Text) (rules : List Text)
    (file : Text) :
    aide.selects (baseConf dbDir logDir ++ rules) file = aide.selects rules file := by
  have hbase : ∀ line ∈ baseConf dbDir logDir, ruleOf line = none := fun _ => ruleOf_baseConf
  obtain ⟨hpositive, hnegative⟩ := matchedBy_of_no_rules aide hbase file
  exact selected_append_eq_iff.mpr (.of_unmatched hpositive hnegative)

end MetaSecurity.Aide
