import Mathlib.Data.List.SplitBy
import Mathlib.Data.List.TakeWhile

/-!
# Runs of a list

A list splits into its maximal runs of elements with a property and of elements without it. `cut`
takes a list apart around its first run of elements with the property, and cutting again and again
leads to the same runs.
-/

namespace Library

variable {α β : Type*} {p : α → Bool}

/-- The maximal runs. -/
def runs (p : α → Bool) (xs : List α) : List (List α) :=
  xs.splitBy fun x y => p x == p y

/-- What stands before the first run of elements with the property, this run, and what follows; what
is empty is left out. -/
def cut (p : α → Bool) (xs : List α) : List (List α) :=
  [xs.takeWhile fun x => !p x, (xs.dropWhile fun x => !p x).takeWhile p,
    (xs.dropWhile fun x => !p x).dropWhile p].filter fun part => !part.isEmpty

@[simp] theorem runs_nil : runs p [] = [] := rfl

theorem runs_ne_nil {xs : List α} (h : xs ≠ []) : runs p xs ≠ [] :=
  List.splitBy_ne_nil.mpr h

theorem ne_nil_of_mem_runs {xs run : List α} (h : run ∈ runs p xs) : run ≠ [] :=
  List.ne_nil_of_mem_splitBy h

/-- Elements that agree on the property are one run. -/
theorem runs_eq_singleton {xs : List α} (hne : xs ≠ []) {b : Bool} (h : ∀ x ∈ xs, p x = b) :
    runs p xs = [xs] := by
  refine List.splitBy_of_isChain hne ?_
  rw [List.isChain_iff_getElem]
  intro i hi
  rw [h _ (List.getElem_mem _), h _ (List.getElem_mem _), beq_self_eq_true]

/-- Where the property changes, one run ends and another begins. -/
theorem runs_append {xs ys : List α} {b : Bool} (hxs : ∀ x ∈ xs, p x = b)
    (hys : ∀ y ∈ ys.head?, p y ≠ b) : runs p (xs ++ ys) = runs p xs ++ runs p ys := by
  refine List.splitBy_append fun x hx y hy => ?_
  rw [hxs x (List.mem_of_mem_getLast? hx)]
  exact beq_eq_false_iff_ne.mpr (hys y hy).symm

/-- The elements of a run agree on the property. -/
theorem all_of_mem_runs {xs run : List α} (h : run ∈ runs p xs) :
    (∀ x ∈ run, p x = true) ∨ ∀ x ∈ run, p x = false := by
  have hchain : run.IsChain fun x y => (p x == p y) = true := List.isChain_of_mem_splitBy h
  cases run with
  | nil => exact Or.inl (by simp)
  | cons x run =>
      have hall : ∀ y ∈ x :: run, p y = p x := by
        clear h
        induction run generalizing x with
        | nil => simp
        | cons y run ih =>
            obtain ⟨hxy, hrest⟩ := List.isChain_cons_cons.mp hchain
            have heq : p x = p y := beq_iff_eq.mp hxy
            intro z hz
            rcases List.mem_cons.mp hz with rfl | hz
            · rfl
            · rw [heq]
              exact ih y hrest z hz
      cases hx : p x with
      | true => exact Or.inl fun y hy => (hall y hy).trans hx
      | false => exact Or.inr fun y hy => (hall y hy).trans hx

/-! ## Cutting -/

section

variable (p) (xs : List α)

/-- The three parts make up the list. -/
theorem cut_parts :
    (xs.takeWhile fun x => !p x) ++ ((xs.dropWhile fun x => !p x).takeWhile p ++
      (xs.dropWhile fun x => !p x).dropWhile p) = xs := by
  rw [List.takeWhile_append_dropWhile, List.takeWhile_append_dropWhile]

theorem flatten_cut : (cut p xs).flatten = xs := by
  have hflatten : ∀ parts : List (List α),
      (parts.filter fun part => !part.isEmpty).flatten = parts.flatten := by
    intro parts
    induction parts with
    | nil => rfl
    | cons part parts ih => cases part <;> simp [ih]
  rw [cut, hflatten]
  simp

/-- Cutting does not change the runs. -/
theorem flatMap_runs_cut : (cut p xs).flatMap (runs p) = runs p xs := by
  have hflatMap : ∀ parts : List (List α),
      (parts.filter fun part => !part.isEmpty).flatMap (runs p) = parts.flatMap (runs p) := by
    intro parts
    induction parts with
    | nil => rfl
    | cons part parts ih => cases part <;> simp [ih]
  have hbefore : ∀ x ∈ xs.takeWhile (fun x => !p x), p x = false := by
    intro x hx
    simpa using List.mem_takeWhile_imp hx
  have hrun : ∀ x ∈ (xs.dropWhile fun x => !p x).takeWhile p, p x = true :=
    fun x hx => List.mem_takeWhile_imp hx
  have hmiddle : ∀ y ∈ (xs.dropWhile fun x => !p x).head?, p y ≠ false := by
    intro y hy
    have hnot := List.head?_dropWhile_not (fun x => !p x) xs
    rw [Option.mem_def.mp hy] at hnot
    simpa using hnot
  have hafter : ∀ y ∈ ((xs.dropWhile fun x => !p x).dropWhile p).head?, p y ≠ true := by
    intro y hy
    have hnot := List.head?_dropWhile_not p (xs.dropWhile fun x => !p x)
    rw [Option.mem_def.mp hy] at hnot
    simpa using hnot
  calc (cut p xs).flatMap (runs p)
      = runs p (xs.takeWhile fun x => !p x) ++
          (runs p ((xs.dropWhile fun x => !p x).takeWhile p) ++
            runs p ((xs.dropWhile fun x => !p x).dropWhile p)) := by
        rw [cut, hflatMap]
        simp
    _ = runs p (xs.takeWhile fun x => !p x) ++ runs p (xs.dropWhile fun x => !p x) := by
        rw [← runs_append hrun hafter, List.takeWhile_append_dropWhile]
    _ = runs p xs := by
        rw [← runs_append hbefore hmiddle, List.takeWhile_append_dropWhile]

/-- The first part of a list that begins with an element without the property. -/
theorem cut_cons_of_neg {x : α} (hx : p x = false) :
    ∃ rest, cut p (x :: xs) = (x :: xs.takeWhile fun y => !p y) :: rest := by
  rw [cut, List.takeWhile_cons_of_pos (by simp [hx]), List.filter_cons_of_pos (by simp)]
  exact ⟨_, rfl⟩

/-- The first part of a list that begins with an element with the property. -/
theorem cut_cons_of_pos {x : α} (hx : p x = true) :
    ∃ rest, cut p (x :: xs) = (x :: xs.takeWhile p) :: rest := by
  rw [cut, List.takeWhile_cons_of_neg (by simp [hx]), List.dropWhile_cons_of_neg (by simp [hx]),
    List.filter_cons_of_neg (by simp), List.takeWhile_cons_of_pos hx,
    List.filter_cons_of_pos (by simp)]
  exact ⟨_, rfl⟩

variable {xs}

theorem ne_nil_of_mem_cut {part : List α} (h : part ∈ cut p xs) : part ≠ [] := by
  simpa using (List.mem_filter.mp h).2

/-- A list is cut in two at least unless its elements agree on the property. -/
theorem two_le_length_cut {x y : α} (hx : x ∈ xs) (hy : y ∈ xs) (hpx : p x = true)
    (hpy : p y = false) : 2 ≤ (cut p xs).length := by
  have hparts := cut_parts p xs
  have hrun : (xs.dropWhile fun x => !p x).takeWhile p ≠ [] := by
    cases hdrop : xs.dropWhile fun x => !p x with
    | nil =>
        have hnot := List.dropWhile_eq_nil_iff.mp hdrop x hx
        simp [hpx] at hnot
    | cons z zs =>
        have hz := List.head?_dropWhile_not (fun x => !p x) xs
        rw [hdrop] at hz
        have hpz : p z = true := by simpa using hz
        simp [hpz]
  by_cases hbefore : (xs.takeWhile fun x => !p x) = []
  · by_cases hafter : (xs.dropWhile fun x => !p x).dropWhile p = []
    · rw [hbefore, hafter, List.nil_append, List.append_nil] at hparts
      rw [← hparts] at hy
      exact absurd (List.mem_takeWhile_imp hy) (by simp [hpy])
    · simp [cut, hbefore, hrun, hafter]
  · have htwo : ∀ before run after : List α, before ≠ [] → run ≠ [] →
        2 ≤ ([before, run, after].filter fun part => !part.isEmpty).length := by
      intro before run after hbefore hrun
      cases after <;> simp [hbefore, hrun]
    exact htwo _ _ _ hbefore hrun

end

/-! ## Comparing -/

/-- Lists are compared by what their elements stand for, if the elements are. -/
theorem compareLex_map [Ord β] {cmp : α → α → Ordering} {f : α → β} {xs ys : List α}
    (h : ∀ x ∈ xs, ∀ y ∈ ys, cmp x y = compare (f x) (f y)) :
    xs.compareLex cmp ys = compare (xs.map f) (ys.map f) := by
  induction xs generalizing ys with
  | nil => cases ys <;> rfl
  | cons x xs ih =>
      cases ys with
      | nil => rfl
      | cons y ys =>
          rw [List.compareLex_cons_cons, List.map_cons, List.map_cons, List.compare_cons_cons,
            h x List.mem_cons_self y List.mem_cons_self,
            ih fun x hx y hy => h x (List.mem_cons_of_mem _ hx) y (List.mem_cons_of_mem _ hy)]

end Library
