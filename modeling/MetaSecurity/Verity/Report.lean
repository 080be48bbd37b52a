import MetaSecurity.Library.Hexadecimal
import MetaSecurity.Verity.Setup

/-!
# The report of `veritysetup format`

A `Report` is the documented output of a successful `veritysetup format`: a header line and then
lines `Name: value`, among them the data block size and the root hash. `commonEnvironment_report`
says that `process_verity` turns it into a file of shell assignments; a truncated report, which a
failing `veritysetup` may leave, need not be one.
-/

namespace MetaSecurity.Verity

open Library Shell

/-- The variables that the shell itself interprets. -/
def specialVariables : List Text :=
  ["IFS".toList, "PATH".toList] ++ reservedVariables

/-- A root hash of 256 bits, as `veritysetup` prints it. -/
structure RootHash where
  digits : Text
  length_eq : digits.length = 64
  hex : ∀ c ∈ digits, isHexDigit c = true

/-- The shell variable that a name in the report becomes. -/
def variableName (name : Text) : Text :=
  name.map keyChar

/-- A value without its blanks. -/
def compact (value : Text) : Text :=
  value.filter fun c => c ≠ ' ' && c ≠ '\t'

/-- The assignment that a line of the report becomes. -/
def toAssignment (entry : Text × Text) : Assignment :=
  (variableName entry.1, compact entry.2)

/-- The documented output of `veritysetup format`. Every name becomes a shell variable, every value
consists of literal characters and blanks; one line gives the data block size, and one line, the
only one whose name starts so, the root hash. -/
structure Report (blockSize : Nat) (rootHash : RootHash) where
  header : Text
  entries : List (Text × Text)
  header_line : '\n' ∉ header
  names : ∀ entry ∈ entries,
    isIdentifier (variableName entry.1) = true ∧ variableName entry.1 ∉ specialVariables
  values : ∀ entry ∈ entries, ∀ c ∈ entry.2, isLiteral c = true ∨ c = ' ' ∨ c = '\t'
  blockSize_eq : (entries.map toAssignment).filter (fun a => a.1 = Var.dataBlockSize) =
    [(Var.dataBlockSize, decimal blockSize)]
  rootHash_eq : (entries.map toAssignment).filter (fun a => Var.rootHash.isPrefixOf a.1) =
    [(Var.rootHash, rootHash.digits)]

/-- A line of the report. -/
def entryLine (entry : Text × Text) : Text :=
  entry.1 ++ ':' :: ' ' :: entry.2

variable {blockSize : Nat} {rootHash : RootHash}

/-- The report as it is printed. -/
def Report.text (report : Report blockSize rootHash) : Text :=
  report.header ++ '\n' :: terminate '\n' (report.entries.map entryLine)

/-- The assignments that the lines of the report become. -/
def Report.assignments (report : Report blockSize rootHash) : List Assignment :=
  report.entries.map toAssignment

/-- The assignments of both modes. -/
def Report.common (report : Report blockSize rootHash) (c : Config) (size : Nat) :
    List Assignment :=
  report.assignments ++
    [(Var.dataSize, decimal size), (Var.separateHash, decimal c.separateHash)]

/-! ## What the filters make of the report -/

/-- A character that becomes part of an identifier is a letter, a digit, an underscore or a
blank. -/
theorem ne_of_keyChar {c : Char} (h : ((keyChar c).isAlphanum || keyChar c = '_') = true) :
    c ≠ ':' ∧ c ≠ '\n' ∧ c ≠ '\\' ∧ c ≠ '-' := by
  refine ⟨?_, ?_, ?_, ?_⟩ <;> rintro rfl <;> exact absurd h (by decide)

/-- The characters of a name in the report. -/
theorem ne_of_mem_name {name : Text} (h : isIdentifier (variableName name) = true) {c : Char}
    (hc : c ∈ name) : c ≠ ':' ∧ c ≠ '\n' ∧ c ≠ '\\' ∧ c ≠ '-' := by
  simp only [isIdentifier, Bool.and_eq_true, List.all_eq_true] at h
  exact ne_of_keyChar (h.2 (keyChar c) (List.mem_map.mpr ⟨c, hc, rfl⟩))

/-- The characters of a value in the report. -/
theorem ne_of_value {c : Char} (h : isLiteral c = true ∨ c = ' ' ∨ c = '\t') :
    c ≠ ':' ∧ c ≠ '\n' ∧ c ≠ '\\' := by
  refine ⟨?_, ?_, ?_⟩ <;> rintro rfl <;> revert h <;> decide

/-- What is left of a value that `echo` has printed. -/
def echoed (echo : Echo) (val : Text) : Text :=
  substitution (compact (echo.output [val]))

/-- An ordinary value is left as it stands, without its blanks. -/
theorem echoed_plain (echo : Echo) {val : Text} (hoption : echoOption val = false)
    (hplain : ∀ c ∈ val, c ≠ '\n' ∧ c ≠ '\\') : echoed echo val = compact val := by
  have hecho : echo.output [val] = val ++ ['\n'] := by
    have hslash : '\\' ∉ val := fun h => (hplain _ h).2 rfl
    rw [echo.plain [val] hoption (by simpa using hslash)]
    simp [joinWords]
  have hcompact : compact (val ++ ['\n']) = compact val ++ ['\n'] := by
    rw [compact, List.filter_append]
    rfl
  rw [echoed, hecho, hcompact]
  exact substitution_line fun h => (hplain _ (List.mem_filter.mp h).1).1 rfl

/-- A line `KEY:VALUE` becomes an assignment of what `echo` prints of the value. -/
theorem environmentLine_line (echo : Echo) {key val : Text}
    (hname : isIdentifier (variableName key) = true) (hval : ':' ∉ val) :
    environmentLine echo ((key ++ ':' :: val).map fun c => (c, false)) =
      assignmentLine (variableName key, echoed echo val) ++ ['\n'] := by
  have hcolon : ':' ∉ key := fun h => (ne_of_mem_name hname h).1 rfl
  have hkey : echo.output [key] = key ++ ['\n'] := by
    refine echo.output_singleton ?_ fun h => (ne_of_mem_name hname h).2.2.1 rfl
    intro hhead
    exact (ne_of_mem_name hname (List.mem_of_head? hhead)).2.2.2 rfl
  have hline : '\n' ∉ variableName key := fun h => (ne_of_mem_identifier hname h).2 rfl
  have hupper : (key ++ ['\n']).map keyChar = variableName key ++ ['\n'] := by
    rw [List.map_append]
    rfl
  rw [environmentLine, readKey_plain hcolon, readRest_plain hcolon hval]
  simp only [hkey, hupper, substitution_line hline]
  rfl

/-- `read` delivers the lines of a text without backslashes as they stand. -/
theorem readLines_terminate {lines : List Text}
    (h : ∀ line ∈ lines, '\n' ∉ line ∧ '\\' ∉ line) :
    readLines (terminate '\n' lines) = lines.map fun line => line.map fun c => (c, false) := by
  induction lines with
  | nil => rfl
  | cons line lines ih =>
      obtain ⟨hnl, hslash⟩ := h line List.mem_cons_self
      rw [terminate_cons, readLines_plain hnl hslash,
        ih fun other hother => h other (List.mem_cons_of_mem _ hother)]
      rfl

/-- The first line is dropped. -/
theorem tailFromSecond_line {line : Text} (h : '\n' ∉ line) (rest : Text) :
    tailFromSecond (line ++ '\n' :: rest) = rest := by
  have hfree : ∀ c ∈ line, decide (c ≠ '\n') = true := by
    intro c hc
    have hne : c ≠ '\n' := fun heq => h (heq ▸ hc)
    simpa using hne
  rw [tailFromSecond, List.dropWhile_append_of_pos hfree]
  simp

/-- `echo "NAME=value"` appends an assignment. -/
theorem echo_assignment (echo : Echo) {a : Assignment} (h : isPlainAssignment a = true) :
    echo.output [assignmentLine a] = assignmentLine a ++ ['\n'] := by
  simp only [isPlainAssignment, isIdentifier, Bool.and_eq_true, List.all_eq_true] at h
  obtain ⟨⟨hfirst, hname⟩, hvalue⟩ := h
  refine echo.output_singleton ?_ ?_
  · cases hcons : a.1 with
    | nil => simp [hcons] at hfirst
    | cons c cs =>
        have hc := hname c (by simp [hcons])
        simp only [assignmentLine, hcons, List.cons_append, List.head?_cons, ne_eq,
          Option.some.injEq]
        rintro rfl
        exact absurd hc (by decide)
  · intro hmem
    rcases List.mem_append.mp hmem with hmem | hmem
    · exact absurd (hname _ hmem) (by decide)
    · rcases List.mem_cons.mp hmem with heq | hmem
      · exact absurd heq (by decide)
      · exact absurd (hvalue _ hmem) (by decide)

theorem decimal_literal (n : Nat) : (decimal n).all isLiteral = true :=
  List.all_eq_true.mpr fun _ hc => (isDigit_spec (isDigit_of_mem_decimal hc)).1

/-- A number is an ordinary value. -/
theorem ordinary_decimal {name : Text} (n : Nat) (h : isOrdinaryAssignment (name, []) = true) :
    isOrdinaryAssignment (name, decimal n) = true := by
  simp only [isOrdinaryAssignment, isPlainAssignment, List.all_nil, Bool.and_true] at h
  simpa only [isOrdinaryAssignment, isPlainAssignment, decimal_literal, Bool.and_true] using h

/-- A line `KEY:VALUE`. -/
def reportLine (line : Text × Text) : Text :=
  line.1 ++ ':' :: line.2

/-- The assignments that lines `KEY:VALUE` become. -/
def lineAssignments (echo : Echo) (lines : List (Text × Text)) : List Assignment :=
  lines.map fun line => (variableName line.1, echoed echo line.2)

/-- `process_verity` turns lines `KEY:VALUE` into assignments and adds the size and the mode. -/
theorem commonEnvironment_lines (c : Config) (tools : Tools) (size : Nat) {header : Text}
    (hheader : '\n' ∉ header) {lines : List (Text × Text)}
    (hnames : ∀ line ∈ lines, isIdentifier (variableName line.1) = true)
    (hvalues : ∀ line ∈ lines, ∀ c ∈ line.2, c ≠ ':' ∧ c ≠ '\n' ∧ c ≠ '\\') :
    commonEnvironment c tools size
        (tailFromSecond (header ++ '\n' :: terminate '\n' (lines.map reportLine))) =
      assignmentFile (lineAssignments tools.echo lines ++
        [(Var.dataSize, decimal size), (Var.separateHash, decimal c.separateHash)]) := by
  have hlines : ∀ text ∈ lines.map reportLine, '\n' ∉ text ∧ '\\' ∉ text := by
    intro text htext
    obtain ⟨line, hline, rfl⟩ := List.mem_map.mp htext
    have hchar : ∀ c ∈ reportLine line, c ≠ '\n' ∧ c ≠ '\\' := by
      intro c hc
      rcases List.mem_append.mp hc with hc | hc
      · have hname := ne_of_mem_name (hnames line hline) hc
        exact ⟨hname.2.1, hname.2.2.1⟩
      · rcases List.mem_cons.mp hc with rfl | hc
        · decide
        · exact (hvalues line hline c hc).2
    exact ⟨fun h => (hchar _ h).1 rfl, fun h => (hchar _ h).2 rfl⟩
  have hentries : (lines.map reportLine).flatMap
      (fun text => environmentLine tools.echo (text.map fun c => (c, false))) =
      assignmentFile (lineAssignments tools.echo lines) := by
    rw [assignmentFile, terminate, lineAssignments, List.flatMap_map, List.flatMap_map,
      List.flatMap_map]
    exact List.flatMap_congr fun line hline =>
      environmentLine_line tools.echo (hnames line hline) fun h => (hvalues line hline _ h).1 rfl
  have hplain : ∀ {name : Text} (n : Nat), isIdentifier name = true →
      isPlainAssignment (name, decimal n) = true := fun n hname => by
    simp only [isPlainAssignment, hname, decimal_literal, Bool.and_self]
  have hsize := echo_assignment tools.echo
    (hplain size (by decide : isIdentifier Var.dataSize = true))
  have hmode := echo_assignment tools.echo
    (hplain c.separateHash (by decide : isIdentifier Var.separateHash = true))
  have hsizeText : "DATA_SIZE=".toList ++ decimal size =
      assignmentLine (Var.dataSize, decimal size) := rfl
  have hmodeText : "SEPARATE_HASH=".toList ++ decimal c.separateHash =
      assignmentLine (Var.separateHash, decimal c.separateHash) := rfl
  rw [commonEnvironment, tailFromSecond_line hheader, readLines_terminate hlines, List.flatMap_map,
    hentries, hsizeText, hmodeText, hsize, hmode]
  simp [assignmentFile]

namespace Report

variable (report : Report blockSize rootHash)

/-- The lines of the report are ordinary assignments. -/
theorem ordinary_assignments : ∀ a ∈ report.assignments, isOrdinaryAssignment a = true := by
  intro a ha
  obtain ⟨entry, hentry, rfl⟩ := List.mem_map.mp ha
  obtain ⟨hname, hspecial⟩ := report.names entry hentry
  refine (isOrdinaryAssignment_iff _).mpr
    ⟨?_, fun hmem => hspecial (List.mem_append_right _ hmem)⟩
  simp only [isPlainAssignment, toAssignment, Bool.and_eq_true, List.all_eq_true]
  refine ⟨hname, fun c hc => ?_⟩
  obtain ⟨hmem, hblank⟩ := List.mem_filter.mp hc
  rcases report.values entry hentry c hmem with hlit | rfl | rfl
  · exact hlit
  · exact absurd hblank (by decide)
  · exact absurd hblank (by decide)

theorem ordinary_common (c : Config) (size : Nat) :
    ∀ a ∈ report.common c size, isOrdinaryAssignment a = true := by
  intro a ha
  rcases List.mem_append.mp ha with ha | ha
  · exact report.ordinary_assignments a ha
  · simp only [List.mem_cons, List.not_mem_nil, or_false] at ha
    rcases ha with rfl | rfl
    · exact ordinary_decimal size (by decide)
    · exact ordinary_decimal c.separateHash (by decide)

/-- `process_verity` turns the report into assignments and adds the size and the mode. -/
theorem commonEnvironment_report (c : Config) (tools : Tools) (size : Nat) :
    commonEnvironment c tools size (tailFromSecond report.text) =
      assignmentFile (report.common c size) := by
  have hblank : ∀ entry ∈ report.entries, echoed tools.echo (' ' :: entry.2) = compact entry.2 := by
    intro entry hentry
    refine (echoed_plain tools.echo (by simp [echoOption]) fun c hc => ?_).trans ?_
    · rcases List.mem_cons.mp hc with rfl | hc
      · decide
      · exact (ne_of_value (report.values entry hentry c hc)).2
    · exact List.filter_cons_of_neg (by decide)
  have hlines : report.text = report.header ++ '\n' :: terminate '\n'
      ((report.entries.map fun entry => (entry.1, ' ' :: entry.2)).map reportLine) := by
    rw [Report.text, List.map_map]
    rfl
  have hassignments : lineAssignments tools.echo
      (report.entries.map fun entry => (entry.1, ' ' :: entry.2)) = report.assignments := by
    rw [lineAssignments, List.map_map, Report.assignments]
    exact List.map_congr_left fun entry hentry => by
      simp only [Function.comp_apply, hblank entry hentry]
      rfl
  rw [hlines, commonEnvironment_lines c tools size report.header_line, hassignments, Report.common]
  · simp only [List.mem_map]
    rintro _ ⟨entry, hentry, rfl⟩
    exact (report.names entry hentry).1
  · simp only [List.mem_map]
    rintro _ ⟨entry, hentry, rfl⟩ c hc
    rcases List.mem_cons.mp hc with rfl | hc
    · decide
    · exact ne_of_value (report.values entry hentry c hc)

end Report

end MetaSecurity.Verity
