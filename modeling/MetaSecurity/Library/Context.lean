import Mathlib.Data.List.Basic

/-!
# Lines with those that follow them

`grep -A n` prints the lines that it selects and the `n` lines that follow each of them, with a
separator between two parts that do not touch. `any_grepAfter_iff` says when a second `grep` finds
something in what is printed.
-/

namespace Library

variable {α : Type*}

/-- Where `grep -A` is: before the first part, in a part or at its end with a number of lines still
to be printed, or past the end of a part. -/
inductive Progress where
  | before
  | within (left : Nat)
  | past
  deriving Repr, DecidableEq

/-- How many lines are still to be printed. -/
def Progress.left : Progress → Nat
  | .within left => left
  | _ => 0

/-- `grep -A n`. -/
def grepAfter (separator : α) (p : α → Bool) (n : Nat) : Progress → List α → List α
  | _, [] => []
  | progress, line :: lines =>
      if p line then
        let printed := line :: grepAfter separator p n (.within n) lines
        if progress = .past then separator :: printed else printed
      else
        match progress with
        | .before => grepAfter separator p n .before lines
        | .within (left + 1) => line :: grepAfter separator p n (.within left) lines
        | .within 0 => grepAfter separator p n .past lines
        | .past => grepAfter separator p n .past lines

/-- One of the lines that `q` selects is a line that `p` selects, or one of the `n` lines that
follow one. -/
def near (p q : α → Bool) (n : Nat) : List α → Bool
  | [] => false
  | line :: lines => (p line && (q line || (lines.take n).any q)) || near p q n lines

theorem exists_mem_of_any_getElem? {p : α → Bool} {i : Nat} {lines : List α}
    (h : lines[i]?.any p = true) : ∃ line ∈ lines, p line = true := by
  cases hget : lines[i]? with
  | none => simp [hget] at h
  | some line => exact ⟨line, List.mem_of_getElem? hget, by simpa [hget] using h⟩

theorem near_iff {p q : α → Bool} {n : Nat} {lines : List α} : near p q n lines = true ↔
    ∃ i j, i ≤ j ∧ j ≤ i + n ∧ lines[i]?.any p = true ∧ lines[j]?.any q = true := by
  induction lines with
  | nil => simp [near]
  | cons line lines ih =>
      have htake : (lines.take n).any q = true ↔ ∃ j, j < n ∧ lines[j]?.any q = true := by
        rw [List.any_eq_true]
        constructor
        · intro ⟨other, hmem, hother⟩
          obtain ⟨j, hlt, rfl⟩ := List.mem_take_iff_getElem.mp hmem
          exact ⟨j, by omega, by simpa [List.getElem?_eq_getElem (by omega : j < lines.length)]
            using hother⟩
        · intro ⟨j, hlt, hother⟩
          cases hget : lines[j]? with
          | none => simp [hget] at hother
          | some other =>
              obtain ⟨hbound, hother'⟩ := List.getElem?_eq_some_iff.mp hget
              refine ⟨other, List.mem_take_iff_getElem.mpr ⟨j, by omega, hother'⟩, ?_⟩
              simpa [hget] using hother
      rw [near, Bool.or_eq_true, Bool.and_eq_true, Bool.or_eq_true, ih, htake]
      constructor
      · intro h
        rcases h with ⟨hp, hq | ⟨j, hlt, hq⟩⟩ | ⟨i, j, hle, hle', hp, hq⟩
        · exact ⟨0, 0, Nat.le_refl 0, by omega, hp, hq⟩
        · exact ⟨0, j + 1, by omega, by omega, hp, hq⟩
        · exact ⟨i + 1, j + 1, by omega, by omega, hp, hq⟩
      · intro ⟨i, j, hle, hle', hp, hq⟩
        cases i with
        | succ i =>
            obtain ⟨k, rfl⟩ : ∃ k, j = k + 1 := ⟨j - 1, by omega⟩
            exact Or.inr ⟨i, k, by omega, by omega, hp, hq⟩
        | zero =>
            cases j with
            | zero => exact Or.inl ⟨hp, Or.inl hq⟩
            | succ k => exact Or.inl ⟨hp, Or.inr ⟨k, by omega, hq⟩⟩

/-- What is found in the lines that are still to be printed is found in a part that begins. -/
theorem any_take_cons_of_le {q : α → Bool} {line : α} {lines : List α} {left n : Nat}
    (hleft : left ≤ n) (h : ((line :: lines).take left).any q = true) :
    (q line || (lines.take n).any q) = true := by
  obtain ⟨other, hmem, hother⟩ := List.any_eq_true.mp h
  have hmem' := (List.take_sublist_take_left (Nat.le_succ_of_le hleft)).subset hmem
  rw [List.take_succ_cons, List.mem_cons] at hmem'
  rcases hmem' with rfl | hmem'
  · rw [hother, Bool.true_or]
  · rw [List.any_eq_true.mpr ⟨other, hmem', hother⟩, Bool.or_true]

/-- What is found in what is printed stands in the lines that are still to be printed, or near a
line that is selected. -/
theorem any_grepAfter {separator : α} {p q : α → Bool} (hseparator : q separator = false) {n : Nat}
    (lines : List α) {progress : Progress} (hleft : progress.left ≤ n) :
    (grepAfter separator p n progress lines).any q =
      ((lines.take progress.left).any q || near p q n lines) := by
  induction lines generalizing progress with
  | nil => simp [grepAfter, near]
  | cons line lines ih =>
      rw [near]
      unfold grepAfter
      cases hp : p line with
      | true =>
          rw [if_pos rfl]
          have hpart : (if progress = .past then
                separator :: line :: grepAfter separator p n (.within n) lines
              else line :: grepAfter separator p n (.within n) lines).any q =
              (q line || ((lines.take n).any q || near p q n lines)) := by
            have hrest := @ih (.within n) (Nat.le_refl n)
            split
            · rw [List.any_cons, hseparator, Bool.false_or, List.any_cons, hrest]
              rfl
            · rw [List.any_cons, hrest]
              rfl
          refine hpart.trans ?_
          rw [Bool.true_and]
          -- the part that begins here is not shorter than the one that is not over
          cases hold : ((line :: lines).take progress.left).any q with
          | false => rw [Bool.false_or, Bool.or_assoc]
          | true =>
              have hcovered := any_take_cons_of_le hleft hold
              rw [← Bool.or_assoc, hcovered, Bool.true_or, Bool.true_or]
      | false =>
          rw [Bool.false_and, Bool.false_or, if_neg Bool.false_ne_true]
          match progress with
          | .before => exact ih (Nat.zero_le n)
          | .past => exact ih (Nat.zero_le n)
          | .within 0 => exact @ih .past (Nat.zero_le n)
          | .within (left + 1) =>
              show (line :: grepAfter separator p n (.within left) lines).any q =
                ((line :: lines.take left).any q || near p q n lines)
              rw [List.any_cons, List.any_cons, @ih (.within left)
                (Nat.le_of_succ_le hleft), Bool.or_assoc]
              rfl

/-- A `grep` for `q` finds something in what `grep -A n` prints for `p` exactly if a line that `q`
selects is one that `p` selects or one of the `n` lines that follow. -/
theorem any_grepAfter_iff {separator : α} {p q : α → Bool} (hseparator : q separator = false)
    (n : Nat) (lines : List α) : (grepAfter separator p n .before lines).any q = true ↔
      ∃ i j, i ≤ j ∧ j ≤ i + n ∧ lines[i]?.any p = true ∧ lines[j]?.any q = true := by
  rw [any_grepAfter hseparator lines (Nat.zero_le n), ← near_iff]
  simp [Progress.left]

end Library
