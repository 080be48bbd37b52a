import MetaSecurity.Library.Backtracking
import MetaSecurity.Library.Records
import Mathlib.Data.List.Forall2

/-!
# A stream editor

What `sed` does with the lines of a file in two of its uses: substitutions that print every line
they change, and lines that are joined two by two. A regular expression is a template, a word in
which one element stands for anything. `joined_flatMap_iff` says when the lines that belong
together are the ones that are joined.
-/

namespace Library

variable {α β : Type*} [DecidableEq α]

/-! ## Templates -/

/-- The list starts as the template says; `wild` in the template stands for any element. -/
def fits (wild : α) : List α → List α → Bool
  | [], _ => true
  | _ :: _, [] => false
  | c :: word, x :: xs => (c == wild || c == x) && fits wild word xs

/-- The regular expression that consists of a template. -/
def template (wild : α) (word : List α) : Piece α := fun xs =>
  if fits wild word xs then [(xs.take word.length, xs.drop word.length)] else []

/-- A part of the list is as the template says. -/
def occurs (wild : α) (word xs : List α) : Bool :=
  xs.tails.any (fits wild word)

theorem fits_append (wild : α) (word rest : List α) : fits wild word (word ++ rest) = true := by
  induction word with
  | nil => rfl
  | cons c word ih => simp [fits, ih]

/-- What fits is a beginning of the list that has the template's elements except where it is
wild. -/
theorem fits_iff {wild : α} {word xs : List α} : fits wild word xs = true ↔
    ∃ part rest, xs = part ++ rest ∧ List.Forall₂ (fun c x => c = wild ∨ c = x) word part := by
  induction word generalizing xs with
  | nil => exact ⟨fun _ => ⟨[], xs, rfl, .nil⟩, fun _ => rfl⟩
  | cons c word ih =>
      cases xs with
      | nil =>
          rw [fits]
          refine ⟨fun h => absurd h Bool.false_ne_true, fun h => ?_⟩
          obtain ⟨part, rest, hsplit, hpart⟩ := h
          rw [(List.append_eq_nil_iff.mp hsplit.symm).1] at hpart
          cases hpart
      | cons x xs =>
          rw [fits, Bool.and_eq_true, ih, Bool.or_eq_true, beq_iff_eq, beq_iff_eq]
          constructor
          · rintro ⟨hx, part, rest, rfl, hpart⟩
            exact ⟨x :: part, rest, rfl, .cons hx hpart⟩
          · rintro ⟨part, rest, hsplit, hpart⟩
            obtain ⟨y, part, hy, htail, rfl⟩ := List.forall₂_cons_left_iff.mp hpart
            rw [List.cons_append, List.cons.injEq] at hsplit
            obtain ⟨rfl, hrest⟩ := hsplit
            exact ⟨hy, part, rest, hrest, htail⟩

/-- A template occurs where a part between a beginning and an end is as it says. -/
theorem occurs_iff {wild : α} {word xs : List α} : occurs wild word xs = true ↔
    ∃ front part rest, xs = front ++ (part ++ rest) ∧
      List.Forall₂ (fun c x => c = wild ∨ c = x) word part := by
  rw [occurs, List.any_eq_true]
  constructor
  · rintro ⟨back, hback, hfits⟩
    obtain ⟨front, rfl⟩ := (List.mem_tails back xs).mp hback
    obtain ⟨part, rest, rfl, hpart⟩ := fits_iff.mp hfits
    exact ⟨front, part, rest, rfl, hpart⟩
  · rintro ⟨front, part, rest, rfl, hpart⟩
    exact ⟨part ++ rest, (List.mem_tails _ _).mpr (List.suffix_append front _),
      fits_iff.mpr ⟨part, rest, rfl, hpart⟩⟩

theorem occurs_of_fits {wild : α} {word xs : List α} (h : fits wild word xs = true) :
    occurs wild word xs = true :=
  List.any_eq_true.mpr ⟨xs, (List.mem_tails xs xs).mpr (List.suffix_refl xs), h⟩

/-- A template does not occur where its first element is missing. -/
theorem occurs_eq_false {wild c : α} {word xs : List α} (hc : c ≠ wild) (hxs : c ∉ xs) :
    occurs wild (c :: word) xs = false := by
  rw [Bool.eq_false_iff]
  intro hoccurs
  obtain ⟨front, part, rest, rfl, hpart⟩ := occurs_iff.mp hoccurs
  obtain ⟨x, part, hx, -, rfl⟩ := List.forall₂_cons_left_iff.mp hpart
  rw [← hx.resolve_left hc] at hxs
  simp at hxs

/-- Before the list may stand an element that the template does not start with. -/
theorem occurs_cons {wild c x : α} {word xs : List α} (hc : c ≠ wild) (hx : c ≠ x) :
    occurs wild (c :: word) (x :: xs) = occurs wild (c :: word) xs := by
  simp [occurs, fits, hc, hx]

theorem matched_template {wild : α} {word xs : List α} (h : fits wild word xs = true) :
    matched [template wild word] xs = some (xs.take word.length, xs.drop word.length) := by
  rw [matched_singleton, template, if_pos h]
  rfl

/-! ## Substitutions that print -/

/-- `s|word|replacement|p`. -/
structure Substitution (α : Type*) where
  word : List α
  replacement : List α
  deriving Repr, DecidableEq

/-- The line after the substitution. -/
def Substitution.edit (wild : α) (s : Substitution α) : List α → List α :=
  substitute [template wild s.word] fun _ => s.replacement

/-- What `sed -n` prints for a line: each substitution works on the line that the ones before it
left, and prints it when it has changed something. -/
def printing (wild : α) : List (Substitution α) → List α → List (List α)
  | [], _ => []
  | s :: commands, line =>
      if occurs wild s.word line then s.edit wild line :: printing wild commands (s.edit wild line)
      else printing wild commands line

/-- The beginning of a line is edited when the word stands there. -/
theorem Substitution.edit_append (wild : α) (s : Substitution α) (rest : List α) :
    s.edit wild (s.word ++ rest) = s.replacement ++ rest := by
  have hmatched := matched_template (fits_append wild s.word rest)
  rw [List.take_left, List.drop_left] at hmatched
  exact substitute_of_matched hmatched fun _ => s.replacement

theorem printing_absent {wild : α} {s : Substitution α} {line : List α}
    (h : occurs wild s.word line = false) (commands : List (Substitution α)) :
    printing wild (s :: commands) line = printing wild commands line := by
  rw [printing, if_neg (by rw [h]; exact Bool.false_ne_true)]

theorem printing_append (wild : α) (s : Substitution α) (commands : List (Substitution α))
    (rest : List α) : printing wild (s :: commands) (s.word ++ rest) =
      (s.replacement ++ rest) :: printing wild commands (s.replacement ++ rest) := by
  rw [printing, if_pos (occurs_of_fits (fits_append wild s.word rest)), s.edit_append]

/-! ## Lines joined two by two -/

/-- Lines joined two by two with `glue` in between: `sed '$!N;s/\n/ /'`. A last line without a
partner stays alone. -/
def joined (glue : α) : List (List α) → List (List α)
  | [] => []
  | [line] => [line]
  | first :: second :: lines => (first ++ glue :: second) :: joined glue lines

omit [DecidableEq α] in
theorem length_joined (glue : α) (lines : List (List α)) :
    (joined glue lines).length = (lines.length + 1) / 2 := by
  fun_induction joined glue lines with
  | case1 => simp
  | case2 => simp
  | case3 first second lines ih =>
      simp only [List.length_cons, ih]
      omega

section

variable (glue : α) (first last : β → List α)

omit [DecidableEq α] in
/-- Records of two lines each are joined line by line, and what follows them does not matter. -/
theorem joined_pairs (rs : List β) (lines : List (List α)) :
    joined glue ((rs.flatMap fun r => [first r, last r]) ++ lines) =
      (rs.map fun r => first r ++ glue :: last r) ++ joined glue lines := by
  induction rs with
  | nil => rfl
  | cons r rs ih =>
      simp only [List.flatMap_cons, List.cons_append, List.nil_append, joined, List.map_cons, ih]

omit [DecidableEq α] in
/-- Further lines between the first and the last line of a record make further lines in the end. -/
theorem length_joined_flatMap (more : β → List (List α)) (rs : List β) :
    (joined glue (rs.flatMap fun r => first r :: (more r ++ [last r]))).length =
      rs.length + ((rs.flatMap more).length + 1) / 2 := by
  have hlength : (rs.flatMap fun r => first r :: (more r ++ [last r])).length =
      2 * rs.length + (rs.flatMap more).length := by
    induction rs with
    | nil => rfl
    | cons r rs ih =>
        simp only [List.flatMap_cons, List.length_append, ih, List.length_cons, List.length_nil]
        omega
  rw [length_joined, hlength]
  omega

omit [DecidableEq α] in
/-- The first and the last lines of the records are joined exactly if no record has further
lines. -/
theorem joined_flatMap_iff (more : β → List (List α)) (rs : List β) :
    joined glue (rs.flatMap fun r => first r :: (more r ++ [last r])) =
      (rs.map fun r => first r ++ glue :: last r) ↔ ∀ r ∈ rs, more r = [] := by
  constructor
  · intro hjoined
    have hlength := congrArg List.length hjoined
    rw [length_joined_flatMap, List.length_map] at hlength
    have hnil : (rs.flatMap more).length = 0 := by omega
    exact List.flatMap_eq_nil_iff.mp (List.length_eq_zero_iff.mp hnil)
  · intro hmore
    have hlines : (rs.flatMap fun r => first r :: (more r ++ [last r])) =
        rs.flatMap (fun r => [first r, last r]) ++ [] := by
      rw [List.append_nil]
      exact List.flatMap_congr fun r hr => by rw [hmore r hr, List.nil_append]
    rw [hlines, joined_pairs, joined, List.append_nil]

end

end Library
