import MetaSecurity.Library.Shell.Variables

/-!
# Padded values

Integers with blanks around them: `[` reads past the blanks, as past all white space, but a file
that assigns such a value without quotes does not. The blanks behind it end the assignment, and
blanks before it make it the name of a command, to which alone the empty assignment belongs.
`PosixSourcing` says so about sourcing, and `exists_padding` finds the blanks.
-/

namespace Shell

open Library

/-- A blank inside a line. -/
def isBlank (c : Char) : Bool :=
  c = ' ' || c = '\t'

/-- Sourcing as in POSIX shells: of an integer with blanks around it, the assignment keeps the
integer, unless blanks come first. Then nothing is assigned; no command has an integer for its
name. Other white space belongs to the value. -/
structure PosixSourcing extends Sourcing where
  padded : ∀ as bs name front value back vars,
    (∀ a ∈ as, isOrdinaryAssignment a = true) → (∀ b ∈ bs, isOrdinaryAssignment b = true) →
    isOrdinaryAssignment (name, []) = true → (integerOperand value).isSome = true →
    (∀ c ∈ value, isBlank c = false ∧ c ≠ '\n') →
    (∀ c ∈ front, isBlank c = true) → (∀ c ∈ back, isBlank c = true) →
      source (assignmentFile as ++ (assignmentLine (name, front ++ value ++ back) ++
          '\n' :: assignmentFile bs)) vars =
        some (assignAll vars (as ++ ((if front = [] then [(name, value)] else []) ++ bs)))

/-! ## The blanks around an integer -/

/-- What is left of an integer without the white space around it. -/
theorem integerOperand_trim {t : Text} {n : Int} (h : integerOperand t = some n) :
    ∀ c ∈ trim isWhite t, c.isDigit = true ∨ c = '-' ∨ c = '+' := by
  cases htrim : trim isWhite t with
  | nil => exact fun d hd => absurd hd List.not_mem_nil
  | cons c cs =>
      intro d hd
      have hdigits : ∀ e ∈ if (decide (c = '-') || decide (c = '+')) = true then cs else c :: cs,
          e.isDigit = true := by
        simp only [integerOperand, htrim, List.head?_cons, Option.some.injEq, List.tail_cons,
          Option.ite_none_left_eq_some, Bool.or_eq_true, not_or, Bool.not_eq_true,
          Bool.not_eq_false', List.all_eq_true] at h
        simpa using h.1.2
      by_cases hsign : (decide (c = '-') || decide (c = '+')) = true
      · rw [if_pos hsign] at hdigits
        rcases List.mem_cons.mp hd with rfl | hd
        · exact .inr (by simpa using hsign)
        · exact .inl (hdigits d hd)
      · rw [if_neg hsign] at hdigits
        exact .inl (hdigits d hd)

/-- The characters of an operand of `[` that is an integer. -/
theorem char_of_integer {t : Text} {n : Int} (h : integerOperand t = some n) {c : Char}
    (hc : c ∈ t) : isWhite c = true ∨ c.isDigit = true ∨ c = '-' ∨ c = '+' := by
  obtain ⟨front, back, heq, hfront, hback⟩ := exists_trim isWhite t
  rw [heq, List.mem_append, List.mem_append] at hc
  rcases hc with (hc | hc) | hc
  · exact .inl (hfront c hc)
  · exact .inr (integerOperand_trim h c hc)
  · exact .inl (hback c hc)

theorem isWhite_of_isBlank {c : Char} (h : isBlank c = true) : isWhite c = true := by
  simp only [isBlank, Bool.or_eq_true, decide_eq_true_eq] at h
  rcases h with rfl | rfl
  · rfl
  · rfl

/-- Blanks around an integer do not matter. -/
theorem integerOperand_between {front back : Text} (hfront : ∀ c ∈ front, isBlank c = true)
    (hback : ∀ c ∈ back, isBlank c = true) (t : Text) :
    integerOperand (front ++ t ++ back) = integerOperand t := by
  have htrim : trim isWhite (front ++ t ++ back) = trim isWhite t := trim_between
    (fun c hc => isWhite_of_isBlank (hfront c hc)) (fun c hc => isWhite_of_isBlank (hback c hc)) t
  rw [integerOperand, integerOperand, htrim]

/-- An integer that is one word on one line is an integer between blanks. -/
theorem exists_padding {t word : Text} {n : Int} (h : integerOperand t = some n)
    (hword : fields isBlank t = [word]) (hline : '\n' ∉ t) :
    ∃ front back, t = front ++ word ++ back ∧ (∀ c ∈ front, isBlank c = true) ∧
      (∀ c ∈ back, isBlank c = true) ∧ (∀ c ∈ word, isBlank c = false ∧ c ≠ '\n') ∧
      integerOperand word = some n := by
  obtain ⟨front, back, rfl, hfront, hback, hfree⟩ := exists_of_fields_eq_singleton hword
  rw [integerOperand_between hfront hback] at h
  refine ⟨front, back, rfl, hfront, hback, fun c hc => ⟨hfree c hc, ?_⟩, h⟩
  rintro rfl
  exact hline (List.mem_append_left _ (List.mem_append_right _ hc))

/-! ## A shell that sources padded values -/

/-- The assignment that a line makes: the value up to its first blank, and none when the value
begins with a blank. -/
def parsePadded (line : Text) : Option Assignment :=
  let a := parseAssignment line
  if a.2.head?.any isBlank then none else some (a.1, a.2.takeWhile fun c => !isBlank c)

theorem isBlank_of_literal {c : Char} (h : isLiteral c = true) : isBlank c = false := by
  cases hblank : isBlank c with
  | false => rfl
  | true =>
      simp only [isBlank, Bool.or_eq_true, decide_eq_true_eq] at hblank
      rcases hblank with rfl | rfl <;> exact absurd h (by decide)

/-- Blanks around a value without blanks. -/
theorem parsePadded_line {name front value back : Text} (hname : isIdentifier name = true)
    (hvalue : ∀ c ∈ value, isBlank c = false) (hfront : ∀ c ∈ front, isBlank c = true)
    (hback : ∀ c ∈ back, isBlank c = true) (hplain : front = [] → value = [] → back = []) :
    parsePadded (assignmentLine (name, front ++ value ++ back)) =
      if front = [] then some (name, value) else none := by
  have hfree : ∀ c ∈ value, (!isBlank c) = true := fun c hc => by
    simp [hvalue c hc]
  have hparse := parseAssignment_line (a := (name, front ++ value ++ back)) hname
  rw [parsePadded, hparse]
  cases front with
  | cons c front => simp [hfront c List.mem_cons_self]
  | nil =>
      have htake : (value ++ back).takeWhile (fun c => !isBlank c) = value := by
        cases back with
        | nil => simpa using hfree
        | cons c back =>
            rw [List.takeWhile_append_of_pos hfree,
              List.takeWhile_cons_of_neg (by simp [hback c List.mem_cons_self]), List.append_nil]
      have hhead : (value ++ back).head?.any isBlank = false := by
        cases value with
        | nil => simp [hplain rfl rfl]
        | cons c value =>
            have hc := hfree c List.mem_cons_self
            simpa using hc
      simp only [List.nil_append, hhead, htake]
      rfl

/-- Plain assignments are read as they stand. -/
theorem filterMap_parsePadded {as : List Assignment} (h : ∀ a ∈ as, isPlainAssignment a = true) :
    (as.map assignmentLine).filterMap parsePadded = as := by
  rw [List.filterMap_map]
  have hparse : ∀ a ∈ as, (parsePadded ∘ assignmentLine) a = some a := by
    intro a ha
    have hplain := h a ha
    simp only [isPlainAssignment, Bool.and_eq_true] at hplain
    have hfree : ∀ c ∈ a.2, isBlank c = false := fun c hc =>
      isBlank_of_literal (List.all_eq_true.mp hplain.2 c hc)
    have hline : parsePadded (assignmentLine (a.1, [] ++ a.2 ++ [])) =
        if ([] : Text) = [] then some (a.1, a.2) else none :=
      parsePadded_line hplain.1 hfree (by simp) (by simp) (by simp)
    simpa using hline
  rw [List.filterMap_congr hparse, List.filterMap_some]

/-- The lines of a file of plain assignments, before more lines. -/
theorem records_assignmentFile {as : List Assignment} (h : ∀ a ∈ as, isPlainAssignment a = true)
    (t : Text) : records '\n' (assignmentFile as ++ t) = as.map assignmentLine ++ records '\n' t :=
  records_terminate (fun line hline => by
    obtain ⟨a, ha, rfl⟩ := List.mem_map.mp hline
    exact newline_not_mem_assignmentLine (h a ha)) t

/-- A padded value does not end its line. -/
theorem newline_not_mem_padded {name front value back : Text} (hname : isIdentifier name = true)
    (hvalue : '\n' ∉ value) (hfront : ∀ c ∈ front, isBlank c = true)
    (hback : ∀ c ∈ back, isBlank c = true) :
    '\n' ∉ assignmentLine (name, front ++ value ++ back) := by
  have hblank : ¬ isBlank '\n' = true := by decide
  intro hmem
  simp only [assignmentLine, List.mem_append, List.mem_cons] at hmem
  rcases hmem with hmem | heq | (hmem | hmem) | hmem
  · exact (ne_of_mem_identifier hname hmem).2 rfl
  · exact absurd heq (by decide)
  · exact hblank (hfront _ hmem)
  · exact hvalue hmem
  · exact hblank (hback _ hmem)

/-- A shell that takes every line for an assignment, with or without blanks. -/
def PosixSourcing.linewise : PosixSourcing where
  source t vars := some (assignAll vars ((records '\n' t).filterMap parsePadded))
  assignments as vars h := by
    have hplain := plain_of_ordinary h
    have hrecords := records_assignmentFile hplain []
    rw [List.append_nil, records_nil, List.append_nil] at hrecords
    rw [hrecords, filterMap_parsePadded hplain]
  padded as bs name front value back vars has hbs hordinary hinteger hvalue hfront hback := by
    have hasPlain := plain_of_ordinary has
    have hbsPlain := plain_of_ordinary hbs
    have hrecords := records_assignmentFile hbsPlain []
    rw [List.append_nil, records_nil, List.append_nil] at hrecords
    have hne : value ≠ [] := by
      rintro rfl
      cases hinteger
    have hname : isIdentifier name = true := by
      have hplain := ((isOrdinaryAssignment_iff _).mp hordinary).1
      rw [isPlainAssignment, Bool.and_eq_true] at hplain
      exact hplain.1
    have hline : '\n' ∉ assignmentLine (name, front ++ value ++ back) :=
      newline_not_mem_padded hname (fun hmem => (hvalue _ hmem).2 rfl) hfront hback
    have hparse : parsePadded (assignmentLine (name, front ++ value ++ back)) =
        if front = [] then some (name, value) else none :=
      parsePadded_line hname (fun c hc => (hvalue c hc).1) hfront hback fun _ h => absurd h hne
    rw [records_assignmentFile hasPlain, records_append_cons hline, hrecords,
      List.filterMap_append, filterMap_parsePadded hasPlain, List.filterMap_cons, hparse,
      filterMap_parsePadded hbsPlain]
    cases front with
    | nil => rfl
    | cons c front => rfl

end Shell
