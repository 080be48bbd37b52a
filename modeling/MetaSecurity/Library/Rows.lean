import Mathlib.Data.List.Basic

/-!
# Rows

A row is a list in which separators stand between fields, with all separators kept: those before the
first field, and cells that consist of a field and the separators after it. `row` takes a list apart
and `rowText` puts it together; `row_rowText` and `rowText_row` say that they are inverse.
-/

namespace Library

variable {α : Type*} {p : α → Bool}

/-- A field and the separators after it. -/
abbrev Cell (α : Type*) := List α × List α

/-- The list that cells make up. -/
def cellsText (cells : List (Cell α)) : List α :=
  cells.flatMap fun cell => cell.1 ++ cell.2

/-- The list that a row makes up. -/
def rowText (row : List α × List (Cell α)) : List α :=
  row.1 ++ cellsText row.2

/-- The separators before the first field, and the cells. -/
def row (p : α → Bool) : List α → List α × List (Cell α)
  | [] => ([], [])
  | x :: xs =>
      if p x then (x :: (row p xs).1, (row p xs).2)
      else
        match row p xs with
        | ([], (field, after) :: cells) => ([], (x :: field, after) :: cells)
        | (lead, cells) => ([], ([x], lead) :: cells)

/-- Fields without separators inside, with separators between them. -/
def IsCells (p : α → Bool) : List (Cell α) → Prop
  | [] => True
  | cell :: cells => cell.1 ≠ [] ∧ (∀ x ∈ cell.1, p x = false) ∧ (∀ x ∈ cell.2, p x = true) ∧
      (cells ≠ [] → cell.2 ≠ []) ∧ IsCells p cells

@[simp] theorem cellsText_nil : cellsText ([] : List (Cell α)) = [] := rfl

@[simp] theorem cellsText_cons (cell : Cell α) (cells : List (Cell α)) :
    cellsText (cell :: cells) = cell.1 ++ (cell.2 ++ cellsText cells) := by
  simp [cellsText]

@[simp] theorem cellsText_append (before after : List (Cell α)) :
    cellsText (before ++ after) = cellsText before ++ cellsText after := by
  simp [cellsText]

theorem IsCells.of_mem {cells : List (Cell α)} (h : IsCells p cells) :
    ∀ cell ∈ cells, cell.1 ≠ [] ∧ ∀ x ∈ cell.1, p x = false := by
  induction cells with
  | nil => simp
  | cons first cells ih =>
      obtain ⟨hne, hfield, -, -, hcells⟩ := h
      intro cell hcell
      rcases List.mem_cons.mp hcell with rfl | hcell
      · exact ⟨hne, hfield⟩
      · exact ih hcells cell hcell

/-- Fields are not empty. -/
theorem IsCells.eq_nil {cells : List (Cell α)} (h : IsCells p cells) (hnil : cellsText cells = []) :
    cells = [] := by
  cases cells with
  | nil => rfl
  | cons cell cells =>
      rw [cellsText_cons, List.append_eq_nil_iff] at hnil
      exact absurd hnil.1 h.1

/-- Cells start with a field. -/
theorem IsCells.head {cells : List (Cell α)} (h : IsCells p cells) :
    ∀ x ∈ (cellsText cells).head?, p x = false := by
  cases cells with
  | nil => simp
  | cons cell cells =>
      obtain ⟨y, field, hcons⟩ := List.exists_cons_of_ne_nil h.1
      intro x hx
      rw [cellsText_cons, hcons, List.cons_append, List.head?_cons, Option.mem_some_iff] at hx
      exact h.2.1 x (by simp [hcons, hx])

/-- After a field there is a separator, if there is anything. -/
theorem IsCells.head_after {cell : Cell α} {cells : List (Cell α)} (h : IsCells p (cell :: cells)) :
    ∀ x ∈ (cell.2 ++ cellsText cells).head?, p x = true := by
  obtain ⟨-, -, hsep, hbetween, -⟩ := h
  intro x hx
  cases hafter : cell.2 with
  | nil =>
      have hnil : cells = [] := by
        by_contra hne
        exact hbetween hne hafter
      simp [hafter, hnil] at hx
  | cons y after =>
      rw [hafter, List.cons_append, List.head?_cons, Option.mem_some_iff] at hx
      exact hsep x (by simp [hafter, hx])

/-- Other fields between the same separators. -/
theorem IsCells.of_separators {cells cells' : List (Cell α)} (h : IsCells p cells)
    (hsame : cells'.map Prod.snd = cells.map Prod.snd)
    (hfields : ∀ cell ∈ cells', cell.1 ≠ [] ∧ ∀ x ∈ cell.1, p x = false) : IsCells p cells' := by
  induction cells' generalizing cells with
  | nil => trivial
  | cons cell' cells' ih =>
      cases cells with
      | nil => simp at hsame
      | cons cell cells =>
          obtain ⟨-, -, hsep, hbetween, hcells⟩ := h
          rw [List.map_cons, List.map_cons, List.cons.injEq] at hsame
          obtain ⟨hne, hfield⟩ := hfields cell' List.mem_cons_self
          have hnil : cells' = [] ↔ cells = [] := by
            rw [← List.map_eq_nil_iff (f := Prod.snd), hsame.2, List.map_eq_nil_iff]
          refine ⟨hne, hfield, hsame.1 ▸ hsep, ?_, ih hcells hsame.2 fun other hother =>
            hfields other (List.mem_cons_of_mem cell' hother)⟩
          rw [hsame.1, Ne, hnil]
          exact hbetween

/-! ## Taking a list apart -/

theorem row_cons_of_pos {x : α} (hx : p x = true) (xs : List α) :
    row p (x :: xs) = (x :: (row p xs).1, (row p xs).2) := by
  rw [row, if_pos hx]

theorem row_append_lead {lead : List α} (h : ∀ x ∈ lead, p x = true) (xs : List α) :
    row p (lead ++ xs) = (lead ++ (row p xs).1, (row p xs).2) := by
  induction lead with
  | nil => rfl
  | cons x lead ih =>
      rw [List.cons_append, row_cons_of_pos (h x List.mem_cons_self),
        ih fun y hy => h y (List.mem_cons_of_mem x hy)]
      rfl

/-- A field in front of what starts with a separator, or is empty. -/
theorem row_append_field {field xs : List α} (hne : field ≠ []) (h : ∀ x ∈ field, p x = false)
    (hxs : ∀ x ∈ xs.head?, p x = true) :
    row p (field ++ xs) = ([], (field, (row p xs).1) :: (row p xs).2) := by
  induction field with
  | nil => exact absurd rfl hne
  | cons x field ih =>
      have hx : ¬ p x = true := by simp [h x List.mem_cons_self]
      by_cases hnil : field = []
      · subst hnil
        cases xs with
        | nil => simp [row, hx]
        | cons y xs =>
            rw [List.cons_append, List.nil_append, row, if_neg hx, row_cons_of_pos (hxs y rfl)]
      · rw [List.cons_append, row, if_neg hx,
          ih hnil fun y hy => h y (List.mem_cons_of_mem x hy)]

/-- A row is taken apart as it was put together. -/
theorem row_rowText {lead : List α} {cells : List (Cell α)} (hlead : ∀ x ∈ lead, p x = true)
    (hcells : IsCells p cells) : row p (rowText (lead, cells)) = (lead, cells) := by
  have hcellsRow : row p (cellsText cells) = ([], cells) := by
    induction cells with
    | nil => rfl
    | cons cell cells ih =>
        have hafter := hcells.head_after
        obtain ⟨hne, hfield, hsep, -, hrest⟩ := hcells
        rw [cellsText_cons, row_append_field hne hfield hafter, row_append_lead hsep, ih hrest,
          List.append_nil]
  rw [rowText, row_append_lead hlead, hcellsRow, List.append_nil]

/-- Rows that make up the same list have the same cells. -/
theorem rowText_inj {lead : List α} {cells cells' : List (Cell α)} (hlead : ∀ x ∈ lead, p x = true)
    (hcells : IsCells p cells) (hcells' : IsCells p cells') :
    rowText (lead, cells) = rowText (lead, cells') ↔ cells = cells' := by
  constructor
  · intro h
    have hrow := congrArg (row p) h
    rw [row_rowText hlead hcells, row_rowText hlead hcells'] at hrow
    exact (Prod.mk.inj hrow).2
  · exact fun h => by rw [h]

/-- The row of a list makes up the list. -/
theorem rowText_row (p : α → Bool) (xs : List α) :
    rowText (row p xs) = xs ∧ (∀ x ∈ (row p xs).1, p x = true) ∧ IsCells p (row p xs).2 := by
  induction xs with
  | nil => exact ⟨rfl, by simp [row], trivial⟩
  | cons x xs ih =>
      obtain ⟨htext, hlead, hcells⟩ := ih
      by_cases hx : p x = true
      · rw [row_cons_of_pos hx]
        refine ⟨congrArg (x :: ·) htext, fun y hy => ?_, hcells⟩
        rcases List.mem_cons.mp hy with rfl | hy
        · exact hx
        · exact hlead y hy
      · have hnot : ∀ y ∈ [x], p y = false := by simpa using hx
        rw [row, if_neg hx]
        split
        · next field after cells heq =>
          rw [heq] at htext hcells
          obtain ⟨-, hfield, hsep, hbetween, hrest⟩ := hcells
          refine ⟨congrArg (x :: ·) htext, by simp, List.cons_ne_nil x field, fun y hy => ?_, hsep,
            hbetween, hrest⟩
          rcases List.mem_cons.mp hy with rfl | hy
          · exact hnot y (by simp)
          · exact hfield y hy
        · next lead cells hcase heq =>
          rw [heq] at htext hlead hcells
          refine ⟨congrArg (x :: ·) htext, by simp, List.cons_ne_nil x [], hnot, hlead,
            fun hne => ?_, hcells⟩
          rintro rfl
          obtain ⟨cell, cells, rfl⟩ := List.exists_cons_of_ne_nil hne
          exact hcase cell.1 cell.2 cells rfl rfl

end Library
