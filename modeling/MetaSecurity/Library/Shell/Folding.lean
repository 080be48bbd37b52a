import MetaSecurity.Library.Shell.Variables

/-!
# Continued lines

A backslash before a newline continues a line: a program that prints long numbers folds them so, and
a shell that reads an assignment joins the parts again. `fold` writes the parts of a line, and
`FoldedSourcing` says what a file of such assignments does.
-/

namespace Shell

open Library

/-- The parts of one line, each but the last continued by a backslash and a newline. -/
def fold : List Text → Text
  | [] => []
  | [part] => part
  | part :: other :: parts => part ++ '\\' :: '\n' :: fold (other :: parts)

/-- A text without its continuations. -/
def unfoldLines : Text → Text
  | '\\' :: '\n' :: t => unfoldLines t
  | c :: t => c :: unfoldLines t
  | [] => []

/-- The file of assignments whose values are folded. -/
def foldedFile (as : List (Text × List Text)) : Text :=
  terminate '\n' (as.map fun a => assignmentLine (a.1, fold a.2))

/-- The assignment with the parts of its value joined. -/
def joined (a : Text × List Text) : Assignment :=
  (a.1, a.2.flatten)

/-- Sourcing as in POSIX shells: a continued assignment gets the joined value. -/
structure FoldedSourcing extends Sourcing where
  folded : ∀ as vars, (∀ a ∈ as, isOrdinaryAssignment (joined a) = true) →
    source (foldedFile as) vars = some (assignAll vars (as.map joined))

/-- The `echo` prints a continuation as it stands: a backslash before a newline is none of the
escapes that some shells know. -/
def Echo.Continues (echo : Echo) : Prop :=
  ∀ start parts, start.head? ≠ some '-' → start ≠ [] → '\\' ∉ start →
    (∀ part ∈ parts, '\\' ∉ part) →
      echo.output [start ++ fold parts] = start ++ fold parts ++ ['\n']

theorem fold_cons_cons (part other : Text) (parts : List Text) :
    fold (part :: other :: parts) = part ++ '\\' :: '\n' :: fold (other :: parts) := rfl

/-- The characters of a folded line. -/
theorem mem_fold {parts : List Text} {c : Char} (h : c ∈ fold parts) :
    c = '\\' ∨ c = '\n' ∨ ∃ part ∈ parts, c ∈ part := by
  induction parts with
  | nil => simp [fold] at h
  | cons part parts ih =>
      cases parts with
      | nil => exact .inr (.inr ⟨part, List.mem_cons_self, h⟩)
      | cons other parts =>
          rw [fold_cons_cons, List.mem_append, List.mem_cons, List.mem_cons] at h
          rcases h with h | h | h | h
          · exact .inr (.inr ⟨part, List.mem_cons_self, h⟩)
          · exact .inl h
          · exact .inr (.inl h)
          · rcases ih h with h | h | ⟨later, hlater, hc⟩
            · exact .inl h
            · exact .inr (.inl h)
            · exact .inr (.inr ⟨later, List.mem_cons_of_mem _ hlater, hc⟩)

/-- The start of a line belongs to its first part. -/
theorem fold_append (start part : Text) (parts : List Text) :
    start ++ fold (part :: parts) = fold ((start ++ part) :: parts) := by
  cases parts with
  | nil => rfl
  | cons other parts => simp [fold_cons_cons]

/-! ## Shells that join lines -/

/-- Text before a continuation or without one is kept. -/
theorem unfoldLines_append {front : Text} (h : '\\' ∉ front) (t : Text) :
    unfoldLines (front ++ t) = front ++ unfoldLines t := by
  induction front with
  | nil => rfl
  | cons c front ih =>
      have hc : c ≠ '\\' := fun heq => h (heq ▸ List.mem_cons_self)
      have hfront := ih fun hmem => h (List.mem_cons_of_mem c hmem)
      rw [List.cons_append, unfoldLines, hfront]
      · rfl
      · exact fun t' heq _ => hc heq

theorem unfoldLines_fold {parts : List Text} (h : ∀ part ∈ parts, '\\' ∉ part) (t : Text) :
    unfoldLines (fold parts ++ t) = parts.flatten ++ unfoldLines t := by
  induction parts with
  | nil => rfl
  | cons part parts ih =>
      have hpart := h part List.mem_cons_self
      cases parts with
      | nil => simpa [fold] using unfoldLines_append hpart t
      | cons other parts =>
          have hrest := ih fun later hlater => h later (List.mem_cons_of_mem _ hlater)
          rw [fold_cons_cons, List.append_assoc, unfoldLines_append hpart, List.cons_append,
            List.cons_append, unfoldLines, hrest]
          simp

theorem slash_not_mem_plain {a : Assignment} (h : isPlainAssignment a = true) :
    '\\' ∉ a.1 ∧ '\\' ∉ a.2 := by
  simp only [isPlainAssignment, isIdentifier, Bool.and_eq_true, List.all_eq_true] at h
  exact ⟨fun hmem => absurd (h.1.2 _ hmem) (by decide), fun hmem => absurd (h.2 _ hmem) (by decide)⟩

/-- Joining the lines of a folded file gives the file of the joined assignments. -/
theorem unfoldLines_foldedFile {as : List (Text × List Text)}
    (h : ∀ a ∈ as, isPlainAssignment (joined a) = true) :
    unfoldLines (foldedFile as) = assignmentFile (as.map joined) := by
  induction as with
  | nil => rfl
  | cons a as ih =>
      obtain ⟨hname, hvalue⟩ := slash_not_mem_plain (h a List.mem_cons_self)
      have hparts : ∀ part ∈ a.2, '\\' ∉ part := fun part hpart hmem =>
        hvalue (List.mem_flatten.mpr ⟨part, hpart, hmem⟩)
      have hrest := ih fun later hlater => h later (List.mem_cons_of_mem _ hlater)
      have hstart : '\\' ∉ a.1 ++ ['='] := by
        simpa [joined] using hname
      have hnewline : '\\' ∉ ['\n'] := by decide
      have hshape : foldedFile (a :: as) =
          (a.1 ++ ['=']) ++ (fold a.2 ++ (['\n'] ++ foldedFile as)) := by
        simp [foldedFile, assignmentLine]
      rw [hshape, unfoldLines_append hstart, unfoldLines_fold hparts, unfoldLines_append hnewline,
        hrest]
      simp [assignmentFile, assignmentLine, joined]

theorem unfoldLines_plain {t : Text} (h : '\\' ∉ t) : unfoldLines t = t := by
  have happend := unfoldLines_append h []
  simpa [unfoldLines] using happend

theorem slash_not_mem_assignmentFile {as : List Assignment}
    (h : ∀ a ∈ as, isPlainAssignment a = true) : '\\' ∉ assignmentFile as := by
  intro hmem
  simp only [assignmentFile, terminate, List.flatMap_map, List.mem_flatMap] at hmem
  obtain ⟨a, ha, hline⟩ := hmem
  obtain ⟨hname, hvalue⟩ := slash_not_mem_plain (h a ha)
  simp only [assignmentLine, List.mem_append, List.mem_cons, List.not_mem_nil, or_false] at hline
  rcases hline with (hline | heq | hline) | heq
  · exact hname hline
  · exact absurd heq (by decide)
  · exact hvalue hline
  · exact absurd heq (by decide)

/-- A file of assignments before a folded one is a folded file, too. -/
theorem foldedFile_after (as : List Assignment) (bs : List (Text × List Text)) :
    foldedFile (as.map (fun a => (a.1, [a.2])) ++ bs) = assignmentFile as ++ foldedFile bs ∧
      (as.map (fun a => (a.1, [a.2])) ++ bs).map joined = as ++ bs.map joined := by
  constructor
  · simp [foldedFile, assignmentFile, fold, Function.comp_def]
  · simp [joined, Function.comp_def]

/-- Folded assignments may follow others in a file. -/
theorem FoldedSourcing.folded_after (sourcing : FoldedSourcing) {as : List Assignment}
    {bs : List (Text × List Text)} (has : ∀ a ∈ as, isOrdinaryAssignment a = true)
    (hbs : ∀ b ∈ bs, isOrdinaryAssignment (joined b) = true) (vars : Variables) :
    sourcing.source (assignmentFile as ++ foldedFile bs) vars =
      some (assignAll vars (as ++ bs.map joined)) := by
  obtain ⟨hfile, hjoined⟩ := foldedFile_after as bs
  have hsource := sourcing.folded (as.map (fun a => (a.1, [a.2])) ++ bs) vars
  rw [hfile, hjoined] at hsource
  refine hsource fun a ha => ?_
  rcases List.mem_append.mp ha with ha | ha
  · obtain ⟨b, hb, rfl⟩ := List.mem_map.mp ha
    simpa [joined] using has b hb
  · exact hbs a ha

/-- The joined assignments of a folded file that are ordinary are plain. -/
theorem plain_of_ordinary_joined {as : List (Text × List Text)}
    (h : ∀ a ∈ as, isOrdinaryAssignment (joined a) = true) :
    ∀ a ∈ as, isPlainAssignment (joined a) = true := fun a ha =>
  ((isOrdinaryAssignment_iff (joined a)).mp (h a ha)).1

/-- A shell that joins continued lines before it does what another one does. -/
def FoldedSourcing.joining (sourcing : Sourcing) : FoldedSourcing where
  source t vars := sourcing.source (unfoldLines t) vars
  assignments as vars h := by
    rw [unfoldLines_plain (slash_not_mem_assignmentFile (plain_of_ordinary h))]
    exact sourcing.assignments as vars h
  folded as vars h := by
    rw [unfoldLines_foldedFile (plain_of_ordinary_joined h)]
    refine sourcing.assignments _ vars fun a ha => ?_
    obtain ⟨b, hb, rfl⟩ := List.mem_map.mp ha
    exact h b hb

/-- A shell that joins continued lines and takes every line for an assignment. -/
def FoldedSourcing.linewise : FoldedSourcing :=
  joining .linewise

/-- A shell that joins continued lines and lets assignments to its own variables have no effect. -/
def FoldedSourcing.keeping : FoldedSourcing :=
  joining .keeping

/-- What is left of the assignments of a file in such a shell. -/
theorem FoldedSourcing.keeping_after {as : List Assignment} {bs : List (Text × List Text)}
    (has : ∀ a ∈ as, isPlainAssignment a = true)
    (hbs : ∀ b ∈ bs, isPlainAssignment (joined b) = true) (vars : Variables) :
    FoldedSourcing.keeping.source (assignmentFile as ++ foldedFile bs) vars =
      some (assignAll vars (ordinaryOnes (as ++ bs.map joined))) := by
  obtain ⟨hfile, hjoined⟩ := foldedFile_after as bs
  have hplain : ∀ a ∈ as.map (fun a => (a.1, [a.2])) ++ bs,
      isPlainAssignment (joined a) = true := by
    intro a ha
    rcases List.mem_append.mp ha with ha | ha
    · obtain ⟨b, hb, rfl⟩ := List.mem_map.mp ha
      simpa [joined] using has b hb
    · exact hbs a ha
  have hplainJoined : ∀ a ∈ as ++ bs.map joined, isPlainAssignment a = true := by
    rw [← hjoined]
    intro a ha
    obtain ⟨b, hb, rfl⟩ := List.mem_map.mp ha
    exact hplain b hb
  show some (assignAll vars (ordinaryOnes ((records '\n' (unfoldLines
    (assignmentFile as ++ foldedFile bs))).map parseAssignment))) = _
  rw [← hfile, unfoldLines_foldedFile hplain, hjoined, parse_assignmentFile hplainJoined]

/-- An `echo` that prints nothing for options and everything else as it stands. -/
def Echo.raw : Echo where
  output args := if optionFirst args then [] else joinWords args ++ ['\n']
  plain args hopt _ := by rw [if_neg (by simp [hopt])]
  literal args hopt := by
    rw [if_neg (by simp [hopt])]
    exact (List.takeWhile_prefix _).trans (List.prefix_append _ _)

theorem Echo.raw_continues : Echo.raw.Continues := by
  intro start parts hhead hne _ _
  have hoption : optionFirst [start ++ fold parts] = false := by
    cases start with
    | nil => exact absurd rfl hne
    | cons c start =>
        have hc : c ≠ '-' := fun heq => hhead (by simp [heq])
        simp [optionFirst, echoOption, hc]
  simp [Echo.raw, hoption, joinWords]

end Shell
