import Mathlib.Logic.Function.Basic
import MetaSecurity.Library.Shell.Expand

/-!
# Shell variables, files of assignments and integer tests

A file that only assigns literal values is the way one script hands variables to another one that
sources it. `Sourcing` says what every shell does with such a file and leaves open what other files
do; `assignAll_eq` reads a variable off the assignments.
-/

namespace Shell

open Library

/-- The values of the variables; an unset variable reads as the empty text. -/
abbrev Variables := Text → Text

/-- A variable and the value it is given. -/
abbrev Assignment := Text × Text

/-- The variables after the assignments were made in order. -/
def assignAll (vars : Variables) (as : List Assignment) : Variables :=
  as.foldl (fun vars a => Function.update vars a.1 a.2) vars

theorem assignAll_append (vars : Variables) (as bs : List Assignment) :
    assignAll vars (as ++ bs) = assignAll (assignAll vars as) bs := by
  simp [assignAll]

/-- The value that the last assignment to a variable gives. -/
def lastValue (name : Text) (as : List Assignment) : Option Text :=
  (as.filter fun a => a.1 = name).getLast?.map Prod.snd

/-- After the assignments a variable has the value of the last assignment to it, if there is one. -/
theorem assignAll_eq (vars : Variables) (as : List Assignment) (name : Text) :
    assignAll vars as name = (lastValue name as).getD (vars name) := by
  induction as using List.reverseRecOn with
  | nil => rfl
  | append_singleton as a ih =>
      rw [assignAll_append, lastValue, List.filter_append]
      by_cases hname : a.1 = name
      · simp [assignAll, ← hname]
      · have hother : name ≠ a.1 := fun heq => hname heq.symm
        rw [List.filter_cons_of_neg (by simpa using hname), List.filter_nil, List.append_nil,
          ← lastValue, ← ih]
        exact Function.update_of_ne hother _ _

/-- The last of several lists decides. -/
theorem lastValue_append (name : Text) (as bs : List Assignment) :
    lastValue name (as ++ bs) = (lastValue name bs).or (lastValue name as) := by
  rw [lastValue, List.filter_append, List.getLast?_append, lastValue, lastValue, Option.map_or]

theorem lastValue_pair (name first second u v : Text) :
    lastValue name [(first, u), (second, v)] =
      if second = name then some v else if first = name then some u else none := by
  by_cases hsecond : second = name <;> by_cases hfirst : first = name <;>
    simp [lastValue, hsecond, hfirst]

/-- Variables that are not assigned have no last value. -/
theorem lastValue_of_not_mem {as : List Assignment} {name : Text} (h : name ∉ as.map Prod.fst) :
    lastValue name as = none := by
  have hnone : as.filter (fun a => a.1 = name) = [] := List.filter_eq_nil_iff.mpr
    fun a ha heq => h (List.mem_map.mpr ⟨a, ha, of_decide_eq_true heq⟩)
  rw [lastValue, hnone]
  rfl

/-- Among assignments to different variables every one counts. -/
theorem lastValue_of_mem {as : List Assignment} (h : (as.map Prod.fst).Nodup) {a : Assignment}
    (ha : a ∈ as) : lastValue a.1 as = some a.2 := by
  induction as with
  | nil => cases ha
  | cons b bs ih =>
      rw [List.map_cons, List.nodup_cons] at h
      have hcut : lastValue a.1 (b :: bs) = (lastValue a.1 bs).or (lastValue a.1 [b]) :=
        lastValue_append a.1 [b] bs
      rcases List.mem_cons.mp ha with rfl | ha
      · rw [hcut, lastValue_of_not_mem h.1]
        simp [lastValue]
      · rw [hcut, ih h.2 ha, Option.some_or]

/-- The name of a shell variable. -/
def isIdentifier (name : Text) : Bool :=
  name.head?.any (fun c => c.isAlpha || c = '_') && name.all fun c => c.isAlphanum || c = '_'

/-- A character that stands for itself wherever it occurs on a command line. -/
def isPathChar (c : Char) : Bool :=
  c.isAlphanum || ['_', '-', '.', ',', '/', '+'].contains c

/-- A character that stands for itself in an assigned value. -/
def isLiteral (c : Char) : Bool :=
  isPathChar c || c = '[' || c = ']'

/-- The variable has a proper name and the value needs no quoting. -/
def isPlainAssignment (a : Assignment) : Bool :=
  isIdentifier a.1 && a.2.all isLiteral

/-- The line that makes an assignment. -/
def assignmentLine (a : Assignment) : Text :=
  a.1 ++ '=' :: a.2

/-- A file of assignments, one to a line. -/
def assignmentFile (as : List Assignment) : Text :=
  terminate '\n' (as.map assignmentLine)

/-- The variables that dash, bash or the shell of BusyBox keeps for itself: an assignment to one of
them is refused, has no effect, or is an arithmetic evaluation. -/
def reservedVariables : List Text :=
  ["_", "BASHOPTS", "BASHPID", "BASH_ALIASES", "BASH_ARGC", "BASH_ARGV", "BASH_ARGV0", "BASH_CMDS",
    "BASH_COMMAND", "BASH_LINENO", "BASH_MONOSECONDS", "BASH_SOURCE", "BASH_SUBSHELL",
    "BASH_VERSINFO", "DIRSTACK", "EPOCHREALTIME", "EPOCHSECONDS", "EUID", "FUNCNAME", "GROUPS",
    "HISTCMD", "LINENO", "OPTIND", "PIPESTATUS", "PPID", "RANDOM", "SECONDS", "SHELLOPTS",
    "SRANDOM", "UID"].map String.toList

/-- The assignment is plain, and its variable belongs to the script. -/
def isOrdinaryAssignment (a : Assignment) : Bool :=
  isPlainAssignment a && !reservedVariables.contains a.1

/-- What sourcing a file does to the variables: anything, also ending the shell (`none`), but a
file of ordinary assignments makes these assignments. -/
structure Sourcing where
  source : Text → Variables → Option Variables
  assignments : ∀ as vars, (∀ a ∈ as, isOrdinaryAssignment a = true) →
    source (assignmentFile as) vars = some (assignAll vars as)

theorem isOrdinaryAssignment_iff (a : Assignment) :
    isOrdinaryAssignment a = true ↔ isPlainAssignment a = true ∧ a.1 ∉ reservedVariables := by
  simp [isOrdinaryAssignment]

/-- Ordinary assignments are plain. -/
theorem plain_of_ordinary {as : List Assignment} (h : ∀ a ∈ as, isOrdinaryAssignment a = true) :
    ∀ a ∈ as, isPlainAssignment a = true := fun a ha => ((isOrdinaryAssignment_iff a).mp (h a ha)).1

/-- An identifier consists of letters, digits and underscores. -/
theorem ne_of_mem_identifier {name : Text} (h : isIdentifier name = true) {c : Char}
    (hc : c ∈ name) : c ≠ '=' ∧ c ≠ '\n' := by
  simp only [isIdentifier, Bool.and_eq_true, List.all_eq_true] at h
  have hchar := h.2 c hc
  constructor <;> rintro rfl <;> exact absurd hchar (by decide)

theorem newline_not_mem_assignmentLine {a : Assignment} (h : isPlainAssignment a = true) :
    '\n' ∉ assignmentLine a := by
  simp only [isPlainAssignment, Bool.and_eq_true, List.all_eq_true] at h
  intro hmem
  rcases List.mem_append.mp hmem with hname | hvalue
  · exact (ne_of_mem_identifier h.1 hname).2 rfl
  · rcases List.mem_cons.mp hvalue with heq | hvalue
    · exact absurd heq (by decide)
    · exact absurd (h.2 _ hvalue) (by decide)

/-- Read an assignment line back. -/
def parseAssignment (line : Text) : Assignment :=
  (line.takeWhile (· ≠ '='), (line.dropWhile (· ≠ '=')).tail)

theorem parseAssignment_line {a : Assignment} (h : isIdentifier a.1 = true) :
    parseAssignment (assignmentLine a) = a := by
  have hfree : ∀ c ∈ a.1, decide (c ≠ '=') = true := fun c hc => by
    simpa using (ne_of_mem_identifier h hc).1
  rw [parseAssignment, assignmentLine, List.takeWhile_append_of_pos hfree,
    List.dropWhile_append_of_pos hfree]
  simp

/-- A file of plain assignments is read back as written. -/
theorem parse_assignmentFile {as : List Assignment} (h : ∀ a ∈ as, isPlainAssignment a = true) :
    (records '\n' (assignmentFile as)).map parseAssignment = as := by
  have hlines : ∀ line ∈ as.map assignmentLine, '\n' ∉ line := by
    intro line hline
    obtain ⟨a, ha, rfl⟩ := List.mem_map.mp hline
    exact newline_not_mem_assignmentLine (h a ha)
  have hrecords := records_terminate hlines []
  rw [List.append_nil, records_nil, List.append_nil] at hrecords
  have hparse : as.map (parseAssignment ∘ assignmentLine) = as.map id := by
    refine List.map_congr_left fun a ha => ?_
    have hplain := h a ha
    simp only [isPlainAssignment, Bool.and_eq_true] at hplain
    exact parseAssignment_line hplain.1
  rw [assignmentFile, hrecords, List.map_map, hparse, List.map_id]

/-- A shell that takes every line for an assignment. -/
def Sourcing.linewise : Sourcing where
  source t vars := some (assignAll vars ((records '\n' t).map parseAssignment))
  assignments as vars h := by rw [parse_assignmentFile (plain_of_ordinary h)]

/-- The assignments that are left when those to reserved variables have no effect. -/
def ordinaryOnes (as : List Assignment) : List Assignment :=
  as.filter fun a => !reservedVariables.contains a.1

/-- Ordinary assignments all have an effect. -/
theorem ordinaryOnes_eq {as : List Assignment} (h : ∀ a ∈ as, isOrdinaryAssignment a = true) :
    ordinaryOnes as = as := by
  refine List.filter_eq_self.mpr fun a ha => ?_
  have hfree := ((isOrdinaryAssignment_iff a).mp (h a ha)).2
  simpa using hfree

/-- A reserved variable keeps its value. -/
theorem lastValue_ordinaryOnes {name : Text} (h : name ∈ reservedVariables)
    (as : List Assignment) : lastValue name (ordinaryOnes as) = none := by
  refine lastValue_of_not_mem fun hmem => ?_
  obtain ⟨a, ha, rfl⟩ := List.mem_map.mp hmem
  have hfree := (List.mem_filter.mp ha).2
  simp [h] at hfree

/-- A shell that lets assignments to its own variables have no effect. -/
def Sourcing.keeping : Sourcing where
  source t vars := some (assignAll vars (ordinaryOnes ((records '\n' t).map parseAssignment)))
  assignments as vars h := by rw [parse_assignmentFile (plain_of_ordinary h), ordinaryOnes_eq h]

/-- The value that a file of assignments gives to a variable. -/
def assignedValue (name t : Text) : Option Text :=
  lastValue name ((records '\n' t).map parseAssignment)

theorem assignedValue_file {as : List Assignment} (h : ∀ a ∈ as, isPlainAssignment a = true)
    (name : Text) : assignedValue name (assignmentFile as) = lastValue name as := by
  rw [assignedValue, parse_assignmentFile h]

/-- The result of a command substitution: the output without its trailing newlines. -/
def substitution (output : Text) : Text :=
  output.rdropWhile (· = '\n')

/-- A single line loses its newline. -/
theorem substitution_line {t : Text} (h : '\n' ∉ t) : substitution (t ++ ['\n']) = t := by
  rw [substitution, List.rdropWhile_concat_pos _ _ _ (by simp), List.rdropWhile_eq_self_iff]
  intro hne hlast
  simp only [decide_eq_true_eq] at hlast
  exact h (hlast ▸ List.getLast_mem hne)

/-- A number in decimal digits. -/
def decimal (n : Nat) : Text :=
  Nat.toDigits 10 n

theorem isDigit_of_mem_decimal {n : Nat} {c : Char} (h : c ∈ decimal n) : c.isDigit = true :=
  Nat.isDigit_of_mem_toDigits (by decide) (by decide) h

theorem decimal_ne_nil (n : Nat) : decimal n ≠ [] :=
  Nat.toDigits_ne_nil

/-- The characters that are digits are literal, no white space and no signs. -/
theorem isDigit_spec {c : Char} (h : c.isDigit = true) :
    isLiteral c = true ∧ isIfs c = false ∧ c ≠ '-' ∧ c ≠ '+' := by
  refine ⟨by simp [isLiteral, isPathChar, Char.isAlphanum, h], ?_, ?_, ?_⟩
  · cases hifs : isIfs c with
    | false => rfl
    | true =>
        simp only [isIfs, Bool.or_eq_true, decide_eq_true_eq] at hifs
        rcases hifs with (rfl | rfl) | rfl <;> exact absurd h (by decide)
  · rintro rfl
    exact absurd h (by decide)
  · rintro rfl
    exact absurd h (by decide)

/-- White space: blanks, newlines, vertical tabs, form feeds and carriage returns. -/
def isWhite (c : Char) : Bool :=
  [' ', '\t', '\n', '\x0b', '\x0c', '\r'].contains c

/-- The integer that an operand of `[` denotes, if it denotes one. White space around it does not
count. -/
def integerOperand (t : Text) : Option Int :=
  let body := trim isWhite t
  let digits := if body.head? = some '-' || body.head? = some '+' then body.tail else body
  if digits.isEmpty || !digits.all Char.isDigit then none
  else
    let value : Int := Nat.ofDigitChars 10 digits 0
    some (if body.head? = some '-' then -value else value)

theorem isWhite_of_isDigit {c : Char} (h : c.isDigit = true) : isWhite c = false := by
  cases hwhite : isWhite c with
  | false => rfl
  | true =>
      have hnone : [' ', '\t', '\n', '\x0b', '\x0c', '\r'].Forall (Char.isDigit · = false) := by
        decide
      have hdigit := List.forall_iff_forall_mem.mp hnone c (List.contains_iff_mem.mp hwhite)
      rw [h] at hdigit
      cases hdigit

/-- A decimal number denotes itself. -/
theorem integerOperand_decimal (n : Nat) : integerOperand (decimal n) = some (n : Int) := by
  have hdigit : ∀ c ∈ decimal n, c.isDigit = true := fun c hc => isDigit_of_mem_decimal hc
  have htrim : trim isWhite (decimal n) = decimal n :=
    trim_eq_self fun c hc => isWhite_of_isDigit (hdigit c hc)
  obtain ⟨c, cs, hcons⟩ := List.exists_cons_of_ne_nil (decimal_ne_nil n)
  have hsign := (isDigit_spec (hdigit c (by simp [hcons]))).2.2
  have hhead : (decimal n).head? = some c := by rw [hcons]; rfl
  have hall : (decimal n).all Char.isDigit = true := List.all_eq_true.mpr hdigit
  have hne : (decimal n).isEmpty = false := by rw [hcons]; rfl
  have hvalue : Nat.ofDigitChars 10 (decimal n) 0 = n := Nat.ofDigitChars_ten_toDigits
  simp [integerOperand, htrim, hhead, hsign.1, hsign.2, hall, hne, hvalue]

/-- `[ s -eq t ]` succeeds: both operands are integers, and they are equal. -/
def testEq (s t : Text) : Bool :=
  (integerOperand s).isSome && integerOperand s = integerOperand t

theorem testEq_decimal (m n : Nat) : testEq (decimal m) (decimal n) = (m == n) := by
  rw [Bool.eq_iff_iff]
  simp only [testEq, integerOperand_decimal, Option.isSome_some, Bool.true_and,
    decide_eq_true_eq, Option.some.injEq, beq_iff_eq]
  omega

end Shell
