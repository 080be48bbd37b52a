import MetaSecurity.Library.Shell.Read

/-!
# Unquoted expansions and `echo`

What happens to an unquoted `$var` on a command line, and what `echo` prints for its operands.
Pathname expansion depends on the directory and `echo` differs between shells as soon as an
operand contains a backslash or looks like an option, so both are structures: they carry what
every shell and every directory guarantees, and theorems quantify over them.
-/

namespace Shell

open Library

/-- The word contains a character that is special in pathname expansion. -/
def isPattern (word : Text) : Bool :=
  word.any fun c => c = '*' || c = '?' || c = '['

/-- Pathname expansion in some directory: a pattern becomes one or more names, any other word
stays itself. -/
structure PathnameExpansion where
  names : Text → List Text
  nonempty : ∀ word, names word ≠ []
  plain : ∀ word, isPattern word = false → names word = [word]

/-- A directory in which no pattern matches: every word stays itself. -/
def PathnameExpansion.literal : PathnameExpansion where
  names word := [word]
  nonempty := by simp
  plain := by simp

/-- A directory in which every pattern matches `name` only. -/
def PathnameExpansion.matching (name : Text) : PathnameExpansion where
  names word := if isPattern word then [name] else [word]
  nonempty word := by split <;> simp
  plain word h := by simp [h]

/-- The words that an unquoted expansion of the value `t` contributes to a command line: field
splitting, then pathname expansion. -/
def expand (g : PathnameExpansion) (t : Text) : List Text :=
  (fields isIfs t).flatMap g.names

/-- A value without patterns expands to its fields. -/
theorem expand_of_no_pattern (g : PathnameExpansion) {t : Text}
    (h : ∀ word ∈ fields isIfs t, isPattern word = false) : expand g t = fields isIfs t := by
  rw [expand, List.flatMap_congr fun word hword => g.plain word (h word hword)]
  simp

/-- Where every pattern matches one name, each word expands to one word. -/
theorem expand_matching (name t : Text) :
    expand (.matching name) t =
      (fields isIfs t).map fun word => if isPattern word then name else word := by
  rw [expand, List.map_eq_flatMap]
  refine List.flatMap_congr fun word _ => ?_
  cases h : isPattern word <;> simp [PathnameExpansion.matching, h]

/-- A text that the shell takes as a single word wherever it is expanded unquoted: no white
space and no pattern character. -/
def isPlainWord (t : Text) : Bool :=
  t.all (fun c => !isIfs c) && !isPattern t

/-- A nonempty plain word expands to itself. -/
theorem expand_plain (g : PathnameExpansion) {t : Text} (hne : t ≠ [])
    (h : isPlainWord t = true) : expand g t = [t] := by
  simp only [isPlainWord, Bool.and_eq_true, List.all_eq_true, Bool.not_eq_eq_eq_not,
    Bool.not_true] at h
  have hfields : fields isIfs t = [t] := fields_eq_singleton hne h.1
  rw [expand_of_no_pattern g (by simpa [hfields] using h.2), hfields]

/-- The operand has the form of an option of `echo`: `-` and then letters among `n`, `e`, `E`. -/
def echoOption (word : Text) : Bool :=
  word.head? = some '-' && !word.tail.isEmpty &&
    word.tail.all fun c => c = 'n' || c = 'e' || c = 'E'

/-- The first operand has the form of an option. -/
def optionFirst : List Text → Bool
  | [] => false
  | first :: _ => echoOption first

/-- Operands separated by single spaces. -/
def joinWords (args : List Text) : Text :=
  [' '].intercalate args

/-- An `echo` utility: it prints its operands and a newline unless the first operand looks like an
option or an operand contains a backslash; and in any case a text whose first operand is no
option is printed as it stands up to its first backslash. -/
structure Echo where
  output : List Text → Text
  plain : ∀ args, optionFirst args = false → (∀ arg ∈ args, '\\' ∉ arg) →
    output args = joinWords args ++ ['\n']
  literal : ∀ args, optionFirst args = false →
    (joinWords args).takeWhile (· ≠ '\\') <+: output args

/-- One ordinary operand is printed with a newline. -/
theorem Echo.output_singleton (echo : Echo) {t : Text} (hopt : t.head? ≠ some '-')
    (hslash : '\\' ∉ t) : echo.output [t] = t ++ ['\n'] := by
  have hoption : optionFirst [t] = false := by
    simp [optionFirst, echoOption, hopt]
  rw [echo.plain [t] hoption (by simpa using hslash)]
  simp [joinWords]

/-- A character of joined operands is a separating space or stands in an operand. -/
theorem mem_joinWords {args : List Text} {c : Char} (h : c ∈ joinWords args) :
    c = ' ' ∨ ∃ arg ∈ args, c ∈ arg :=
  mem_intercalate_singleton h

/-- Operands that are nonempty and without white space are the fields of what is printed. -/
theorem fields_joinWords {args : List Text} (hne : ∀ arg ∈ args, arg ≠ [])
    (hfree : ∀ arg ∈ args, ∀ c ∈ arg, isIfs c = false) :
    fields isIfs (joinWords args ++ ['\n']) = args := by
  rw [fields_append_of_forall (by simp [isIfs]), joinWords,
    fields_intercalate (by simp [isIfs]) hne hfree]

/-- The most taciturn `echo`: it prints nothing for options and stops at a backslash. -/
def Echo.cut : Echo where
  output args :=
    if optionFirst args then [] else (joinWords args).takeWhile (· ≠ '\\') ++ ['\n']
  plain args hopt hslash := by
    have hplain : ∀ c ∈ joinWords args, c ≠ '\\' := by
      rintro _ hc rfl
      rcases mem_joinWords hc with hspace | ⟨arg, harg, hmem⟩
      · exact absurd hspace (by decide)
      · exact hslash arg harg hmem
    have hall : (joinWords args).takeWhile (· ≠ '\\') = joinWords args :=
      List.takeWhile_eq_self_iff.mpr (by simpa using hplain)
    rw [if_neg (by simp [hopt]), hall]
  literal args hopt := by
    rw [if_neg (by simp [hopt])]
    exact List.prefix_append _ _

/-- What the taciturn `echo` prints never contains a backslash. -/
theorem Echo.not_mem_cut (args : List Text) : '\\' ∉ Echo.cut.output args := by
  intro h
  simp only [Echo.cut] at h
  split at h
  · simp at h
  · rcases List.mem_append.mp h with h | h
    · simpa using List.mem_takeWhile_imp h
    · simp at h

end Shell
