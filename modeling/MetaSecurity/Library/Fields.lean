import Mathlib.Data.List.DropRight

/-!
# Fields of a list

Splitting a list at separators, with empty pieces thrown away: the words of a line for a
shell, for `str.split`, or for a reader of a configuration file. A separator is any element
that the Boolean predicate `p` accepts. `fields_append_cons` is the equation everything
else rests on: a separator cuts the list in two.
-/

namespace Library

variable {α : Type*} {p : α → Bool}

/-- The fields of `xs`: the maximal runs of elements that are not separators, in order. -/
def fields (p : α → Bool) (xs : List α) : List (List α) :=
  (xs.splitOnP p).filter fun field => !field.isEmpty

/-- A list without its leading and trailing separators. -/
def trim (p : α → Bool) (xs : List α) : List α :=
  (xs.dropWhile p).rdropWhile p

@[simp] theorem fields_nil : fields p [] = [] := by
  simp [fields]

/-- A separator cuts a list: the fields are those before it, then those after it. -/
theorem fields_append_cons {sep : α} (hsep : p sep = true) (xs ys : List α) :
    fields p (xs ++ sep :: ys) = fields p xs ++ fields p ys := by
  rw [fields, List.splitOnP_append_cons xs ys hsep, List.filter_append]
  rfl

/-- A leading separator belongs to no field. -/
theorem fields_cons_of_sep {sep : α} (hsep : p sep = true) (xs : List α) :
    fields p (sep :: xs) = fields p xs := by
  simpa using fields_append_cons hsep [] xs

/-- A list of separators has no fields. -/
theorem fields_eq_nil_of_forall {xs : List α} (h : ∀ x ∈ xs, p x = true) :
    fields p xs = [] := by
  induction xs with
  | nil => exact fields_nil
  | cons x xs ih =>
      rw [fields_cons_of_sep (h x List.mem_cons_self)]
      exact ih fun y hy => h y (List.mem_cons_of_mem _ hy)

/-- A nonempty list without separators is one field. -/
theorem fields_eq_singleton {xs : List α} (hne : xs ≠ []) (h : ∀ x ∈ xs, p x = false) :
    fields p xs = [xs] := by
  rw [fields, List.splitOnP_eq_singleton h]
  simpa using hne

/-- A first run without separators, closed by a separator, is the first field. -/
theorem fields_append_sep_of_forall {sep : α} (hsep : p sep = true) {xs : List α} (hne : xs ≠ [])
    (h : ∀ x ∈ xs, p x = false) (ys : List α) :
    fields p (xs ++ sep :: ys) = xs :: fields p ys := by
  rw [fields_append_cons hsep, fields_eq_singleton hne h]
  rfl

/-- Leading separators do not matter. -/
theorem fields_dropWhile (xs : List α) : fields p (xs.dropWhile p) = fields p xs := by
  induction xs with
  | nil => rfl
  | cons x xs ih =>
      by_cases hx : p x = true
      · rw [List.dropWhile_cons_of_pos hx, ih, fields_cons_of_sep hx]
      · rw [List.dropWhile_cons_of_neg hx]

/-- Separators at the beginning do not matter. -/
theorem fields_append_left {xs : List α} (h : ∀ x ∈ xs, p x = true) (ys : List α) :
    fields p (xs ++ ys) = fields p ys := by
  induction xs with
  | nil => rfl
  | cons x xs ih =>
      rw [List.cons_append, fields_cons_of_sep (h x List.mem_cons_self)]
      exact ih fun y hy => h y (List.mem_cons_of_mem _ hy)

/-- Separators at the end do not matter. -/
theorem fields_append_of_forall {ys : List α} (h : ∀ y ∈ ys, p y = true) (xs : List α) :
    fields p (xs ++ ys) = fields p xs := by
  cases ys with
  | nil => rw [List.append_nil]
  | cons y ys =>
      rw [fields_append_cons (h y List.mem_cons_self),
        fields_eq_nil_of_forall fun z hz => h z (List.mem_cons_of_mem _ hz), List.append_nil]

/-- Trimming keeps the fields. -/
@[simp] theorem fields_trim (xs : List α) : fields p (trim p xs) = fields p xs := by
  have hcut : (xs.dropWhile p).rdropWhile p ++ (xs.dropWhile p).rtakeWhile p = xs.dropWhile p :=
    List.rdropWhile_append_rtakeWhile
  have hsep : ∀ x ∈ (xs.dropWhile p).rtakeWhile p, p x = true :=
    fun x hx => List.mem_rtakeWhile_imp hx
  calc fields p (trim p xs)
      = fields p (trim p xs ++ (xs.dropWhile p).rtakeWhile p) :=
        (fields_append_of_forall hsep _).symm
    _ = fields p (xs.dropWhile p) := by rw [trim, hcut]
    _ = fields p xs := fields_dropWhile xs

/-- Trimming cuts a list off between separators. -/
theorem exists_trim (p : α → Bool) (xs : List α) : ∃ front back, xs = front ++ trim p xs ++ back ∧
    (∀ x ∈ front, p x = true) ∧ ∀ x ∈ back, p x = true := by
  refine ⟨xs.takeWhile p, (xs.dropWhile p).rtakeWhile p, ?_, fun x hx => List.mem_takeWhile_imp hx,
    fun x hx => List.mem_rtakeWhile_imp hx⟩
  rw [trim, List.append_assoc, List.rdropWhile_append_rtakeWhile, List.takeWhile_append_dropWhile]

theorem mem_of_mem_trim {xs : List α} {x : α} (h : x ∈ trim p xs) : x ∈ xs :=
  (List.dropWhile_suffix p).subset ((List.rdropWhile_prefix p (xs.dropWhile p)).subset h)

/-- A first element that is no separator survives trimming. -/
theorem trim_cons_of_not_sep {x : α} (hx : p x = false) (xs : List α) :
    trim p (x :: xs) = x :: xs.rdropWhile p := by
  have hdrop : (x :: xs).dropWhile p = x :: xs := List.dropWhile_cons_of_neg (by simp [hx])
  rw [trim, hdrop]
  induction xs using List.reverseRecOn with
  | nil => simp [List.rdropWhile_singleton, hx]
  | append_singleton ys y ih =>
      have ihdrop := ih (List.dropWhile_cons_of_neg (by simp [hx]))
      rw [← List.cons_append, List.rdropWhile_concat, List.rdropWhile_concat, ihdrop]
      split <;> rfl

/-- Trimming removes leading separators up to the first element that is none. -/
theorem trim_append_cons {front : List α} (hfront : ∀ y ∈ front, p y = true) {x : α}
    (hx : p x = false) (xs : List α) : trim p (front ++ x :: xs) = x :: xs.rdropWhile p := by
  have hdrop : (front ++ x :: xs).dropWhile p = (x :: xs).dropWhile p :=
    List.dropWhile_append_of_pos hfront
  rw [trim, hdrop]
  exact trim_cons_of_not_sep hx xs

/-- A list of separators is trimmed away. -/
theorem trim_eq_nil {xs : List α} (h : ∀ x ∈ xs, p x = true) : trim p xs = [] := by
  rw [trim, List.dropWhile_eq_nil_iff.mpr h, List.rdropWhile_nil]

/-- A list without separators is not changed by trimming. -/
theorem trim_eq_self {xs : List α} (h : ∀ x ∈ xs, p x = false) : trim p xs = xs := by
  have hdrop : xs.dropWhile p = xs :=
    List.dropWhile_eq_self_iff.mpr fun hlen => by simp [h _ (List.getElem_mem hlen)]
  rw [trim, hdrop, List.rdropWhile_eq_self_iff]
  intro hne
  simp [h _ (List.getLast_mem hne)]

/-- Every list is free of separators, or has a first separator. -/
theorem exists_first_sep (p : α → Bool) (xs : List α) :
    (∀ x ∈ xs, p x = false) ∨
      ∃ front sep rest, xs = front ++ sep :: rest ∧ p sep = true ∧ ∀ x ∈ front, p x = false := by
  induction xs with
  | nil => exact Or.inl (by simp)
  | cons x xs ih =>
      cases hx : p x with
      | true => exact Or.inr ⟨[], x, xs, rfl, hx, by simp⟩
      | false =>
          rcases ih with hfree | ⟨front, sep, rest, rfl, hsep, hfront⟩
          · exact Or.inl (by simpa [hx] using hfree)
          · exact Or.inr ⟨x :: front, sep, rest, rfl, hsep, by simpa [hx] using hfront⟩

/-- A beginning without separators stays at the beginning of the first field. -/
theorem exists_fields_append {xs : List α} (hne : xs ≠ []) (h : ∀ x ∈ xs, p x = false)
    (ys : List α) : ∃ first rest, fields p (xs ++ ys) = (xs ++ first) :: rest := by
  rcases exists_first_sep p ys with hfree | ⟨front, sep, rest, rfl, hsep, hfront⟩
  · refine ⟨ys, [], fields_eq_singleton (by simp [hne]) fun x hx => ?_⟩
    rcases List.mem_append.mp hx with hx | hx
    · exact h x hx
    · exact hfree x hx
  · refine ⟨front, fields p rest, ?_⟩
    rw [← List.append_assoc, fields_append_sep_of_forall hsep (by simp [hne])]
    intro x hx
    rcases List.mem_append.mp hx with hx | hx
    · exact h x hx
    · exact hfront x hx

/-- The elements of the fields are the elements that are not separators. -/
theorem flatten_fields (xs : List α) : (fields p xs).flatten = xs.filter fun x => !p x := by
  induction h : xs.length using Nat.strongRecOn generalizing xs with
  | ind n ih =>
    rcases exists_first_sep p xs with hfree | ⟨front, sep, rest, rfl, hsep, hfront⟩
    · cases xs with
      | nil => simp
      | cons x xs =>
          have hkeep : (x :: xs).filter (fun x => !p x) = x :: xs :=
            List.filter_eq_self.mpr fun y hy => by simp [hfree y hy]
          rw [fields_eq_singleton (by simp) hfree, hkeep]
          simp
    · have hrest := ih rest.length (by simp at h; omega) rest rfl
      have hkeep : front.filter (fun x => !p x) = front := by
        simpa [List.filter_eq_self] using hfront
      rw [fields_append_cons hsep, List.flatten_append, hrest, List.filter_append,
        List.filter_cons_of_neg (by simp [hsep]), hkeep]
      cases front with
      | nil => simp
      | cons x front => rw [fields_eq_singleton (by simp) hfront]; simp

/-- An element that is not a separator stands in some field. -/
theorem exists_mem_fields {xs : List α} {x : α} (hx : x ∈ xs) (hp : p x = false) :
    ∃ field ∈ fields p xs, x ∈ field := by
  have hmem : x ∈ (fields p xs).flatten := by
    rw [flatten_fields]
    simp [hx, hp]
  obtain ⟨field, hfield, hin⟩ := List.mem_flatten.mp hmem
  exact ⟨field, hfield, hin⟩

/-- The elements of a field come from the list and are not separators. -/
theorem mem_of_mem_fields {xs field : List α} {x : α} (hfield : field ∈ fields p xs)
    (hx : x ∈ field) : x ∈ xs ∧ p x = false := by
  have hmem : x ∈ (fields p xs).flatten := List.mem_flatten.mpr ⟨field, hfield, hx⟩
  rw [flatten_fields] at hmem
  simpa using hmem

/-- No field is empty. -/
theorem ne_nil_of_mem_fields {xs field : List α} (hfield : field ∈ fields p xs) : field ≠ [] := by
  simpa using (List.mem_filter.mp hfield).2

/-- Where the first field stands, and where the others come from. -/
theorem exists_of_fields_eq_cons {xs first : List α} {others : List (List α)}
    (h : fields p xs = first :: others) :
    ∃ front back, xs = front ++ (first ++ back) ∧ (∀ x ∈ front, p x = true) ∧
      (back = [] ∧ others = [] ∨
        ∃ sep rest, back = sep :: rest ∧ p sep = true ∧ fields p rest = others) := by
  have hdrop : fields p (xs.dropWhile p) = first :: others := (fields_dropWhile xs).trans h
  have hcut : xs.takeWhile p ++ xs.dropWhile p = xs := List.takeWhile_append_dropWhile
  have hfront : ∀ x ∈ xs.takeWhile p, p x = true := fun x hx => List.mem_takeWhile_imp hx
  rcases exists_first_sep p (xs.dropWhile p) with hfree | ⟨word, sep, rest, hword, hsep, hfree⟩
  · have hne : xs.dropWhile p ≠ [] := fun hnil => by simp [hnil] at hdrop
    rw [fields_eq_singleton hne hfree, List.cons.injEq] at hdrop
    exact ⟨_, [], by rw [← hdrop.1, List.append_nil, hcut], hfront, .inl ⟨rfl, hdrop.2.symm⟩⟩
  · have hne : word ≠ [] := by
      rintro rfl
      have hhead := List.head_dropWhile_not p (l := xs) (by simp [hword])
      simp [hword, hsep] at hhead
    rw [hword, fields_append_sep_of_forall hsep hne hfree, List.cons.injEq] at hdrop
    exact ⟨_, sep :: rest, by rw [← hdrop.1, ← hword, hcut], hfront,
      .inr ⟨sep, rest, rfl, hsep, hdrop.2⟩⟩

/-- A list with a single field is that field between separators. -/
theorem exists_of_fields_eq_singleton {xs word : List α} (h : fields p xs = [word]) :
    ∃ front back, xs = front ++ word ++ back ∧ (∀ x ∈ front, p x = true) ∧
      (∀ x ∈ back, p x = true) ∧ ∀ x ∈ word, p x = false := by
  obtain ⟨front, back, hxs, hfront, hrest⟩ := exists_of_fields_eq_cons h
  refine ⟨front, back, by rw [hxs, List.append_assoc], hfront, ?_, fun x hx =>
    (mem_of_mem_fields (h ▸ List.mem_singleton_self word) hx).2⟩
  rcases hrest with ⟨rfl, -⟩ | ⟨sep, rest, rfl, hsep, hnone⟩
  · exact fun x hx => absurd hx List.not_mem_nil
  · have hfilter := flatten_fields (p := p) rest
    rw [hnone, List.flatten_nil, eq_comm, List.filter_eq_nil_iff] at hfilter
    intro x hx
    rcases List.mem_cons.mp hx with rfl | hx
    · exact hsep
    · simpa using hfilter x hx

/-- Separators around a list do not matter to trimming. -/
theorem trim_between {front back : List α} (hfront : ∀ x ∈ front, p x = true)
    (hback : ∀ x ∈ back, p x = true) (xs : List α) :
    trim p (front ++ xs ++ back) = trim p xs := by
  have hcut : ∀ ys : List α, (ys ++ back).rdropWhile p = ys.rdropWhile p := fun ys => by
    rw [List.rdropWhile, List.reverse_append,
      List.dropWhile_append_of_pos fun x hx => hback x (List.mem_reverse.mp hx), List.rdropWhile]
  cases hdrop : xs.dropWhile p with
  | nil =>
      have hall : ∀ x ∈ xs, p x = true := List.dropWhile_eq_nil_iff.mp hdrop
      rw [trim_eq_nil hall]
      refine trim_eq_nil fun x hx => ?_
      rcases List.mem_append.mp hx with hx | hx
      · exact (List.mem_append.mp hx).elim (hfront x) (hall x)
      · exact hback x hx
  | cons y ys =>
      have hcons : (xs ++ back).dropWhile p = xs.dropWhile p ++ back := by
        rw [List.dropWhile_append, hdrop]
        rfl
      rw [trim, trim, List.append_assoc, List.dropWhile_append_of_pos hfront, hcons, hcut]

/-- A field stands somewhere in the list. -/
theorem infix_of_mem_fields {xs field : List α} (h : field ∈ fields p xs) : field <:+: xs := by
  induction hn : xs.length using Nat.strongRecOn generalizing xs with
  | ind n ih =>
    obtain ⟨first, others, hfields⟩ := List.exists_cons_of_ne_nil (List.ne_nil_of_mem h)
    obtain ⟨front, back, rfl, -, hback⟩ := exists_of_fields_eq_cons hfields
    rw [hfields] at h
    rcases List.mem_cons.mp h with rfl | hothers
    · exact ⟨front, back, List.append_assoc ..⟩
    · rcases hback with ⟨-, rfl⟩ | ⟨sep, rest, rfl, -, hrest⟩
      · cases hothers
      · have hshorter : rest.length < n := by
          simp only [List.length_append, List.length_cons] at hn
          omega
        rw [← hrest] at hothers
        exact (ih _ hshorter hothers rfl).trans
          ⟨front ++ (first ++ [sep]), [], by simp⟩

/-- An element of fields written with a separator between them is the separator or stands in one. -/
theorem mem_intercalate_singleton {sep x : α} {ws : List (List α)} (h : x ∈ [sep].intercalate ws) :
    x = sep ∨ ∃ w ∈ ws, x ∈ w := by
  induction ws with
  | nil => simp at h
  | cons w ws ih =>
      cases ws with
      | nil => exact .inr ⟨w, List.mem_cons_self, by simpa using h⟩
      | cons w' ws =>
          rw [List.intercalate_cons_cons, List.append_assoc, List.singleton_append] at h
          rcases List.mem_append.mp h with h | h
          · exact .inr ⟨w, List.mem_cons_self, h⟩
          rcases List.mem_cons.mp h with h | h
          · exact .inl h
          rcases ih h with h | ⟨field, hfield, hx⟩
          · exact .inl h
          · exact .inr ⟨field, List.mem_cons_of_mem _ hfield, hx⟩

/-- Each of them is found there. -/
theorem infix_intercalate {w : List α} {ws : List (List α)} (h : w ∈ ws) (sep : List α) :
    w <:+: sep.intercalate ws := by
  induction ws with
  | nil => cases h
  | cons w' ws ih =>
      cases ws with
      | nil =>
          obtain rfl := List.mem_singleton.mp h
          simp
      | cons w'' ws =>
          rw [List.intercalate_cons_cons, List.append_assoc]
          rcases List.mem_cons.mp h with rfl | h
          · exact List.infix_append_left
          · exact ((ih h).trans List.infix_append_right).trans List.infix_append_right

/-- Fields written with a separator between them read back as the same fields. -/
theorem fields_intercalate {sep : α} (hsep : p sep = true) {ws : List (List α)}
    (hne : ∀ w ∈ ws, w ≠ []) (hfree : ∀ w ∈ ws, ∀ x ∈ w, p x = false) :
    fields p ([sep].intercalate ws) = ws := by
  induction ws with
  | nil => simp
  | cons w ws ih =>
      have hw := hne w List.mem_cons_self
      have hwfree := hfree w List.mem_cons_self
      cases ws with
      | nil => simpa using fields_eq_singleton hw hwfree
      | cons w' ws =>
          have hrest := ih (fun v hv => hne v (List.mem_cons_of_mem _ hv))
            (fun v hv => hfree v (List.mem_cons_of_mem _ hv))
          rw [List.intercalate_cons_cons, List.append_assoc, List.singleton_append,
            fields_append_sep_of_forall hsep hw hwfree, hrest]

end Library
