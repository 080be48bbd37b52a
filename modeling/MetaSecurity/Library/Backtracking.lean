import Mathlib.Data.List.Infix

/-!
# Backtracking patterns

A pattern is a sequence of pieces, each of which can match the beginning of a list in several ways.
The ways are tried in order of preference, and the first one with which the rest of the pattern
matches counts. `matched` is what a whole pattern matches and `substitute` replaces its leftmost
match. The rules say for which pieces only the preferred way matters.
-/

namespace Library

variable {α : Type*}

/-- The ways in which a piece matches the beginning of a list, the preferred ones first: what it
matches, and the rest of the list. -/
abbrev Piece (α : Type*) := List α → List (List α × List α)

/-- One or more elements that satisfy `p`, as many as possible. -/
def oneOrMore (p : α → Bool) : Piece α
  | [] => []
  | x :: xs =>
      if p x then (oneOrMore p xs).map (fun way => (x :: way.1, way.2)) ++ [([x], xs)] else []

/-- One of the words, the earlier ones preferred. -/
def oneOf [DecidableEq α] (words : List (List α)) : Piece α := fun xs =>
  (words.filter fun word => word.isPrefixOf xs).map fun word => (word, xs.drop word.length)

/-- One or more and at most `n` copies of a word, as many as possible. -/
def copies [DecidableEq α] (word : List α) : Nat → Piece α
  | 0, _ => []
  | n + 1, xs =>
      if word.isPrefixOf xs then
        (copies word n (xs.drop word.length)).map (fun way => (word ++ way.1, way.2)) ++
          [(word, xs.drop word.length)]
      else []

/-- One or more copies of a word. -/
def oneOrMoreOf [DecidableEq α] (word : List α) : Piece α := fun xs =>
  copies word xs.length xs

/-- What the pieces match one after the other, and the rest of the list. -/
def matchAll : List (Piece α) → List α → Option (List (List α) × List α)
  | [], xs => some ([], xs)
  | piece :: pieces, xs => (piece xs).findSome? fun way =>
      (matchAll pieces way.2).map fun result => (way.1 :: result.1, result.2)

/-- The list with the leftmost match of the pattern replaced. -/
def substitute (pattern : List (Piece α)) (replacement : List (List α) → List α) :
    List α → List α
  | [] =>
      match matchAll pattern [] with
      | some result => replacement result.1 ++ result.2
      | none => []
  | x :: xs =>
      match matchAll pattern (x :: xs) with
      | some result => replacement result.1 ++ result.2
      | none => x :: substitute pattern replacement xs

/-- What the whole pattern matches at the beginning of a list, and the rest of the list. -/
def matched (pattern : List (Piece α)) (xs : List α) : Option (List α × List α) :=
  (matchAll pattern xs).map fun result => (result.1.flatten, result.2)

/-- What is matched after `front`. -/
def following (front : List α) (result : Option (List α × List α)) : Option (List α × List α) :=
  result.map fun result => (front ++ result.1, result.2)

@[simp] theorem following_none (front : List α) : following front none = none := rfl

@[simp] theorem following_some (front xs rest : List α) :
    following front (some (xs, rest)) = some (front ++ xs, rest) := rfl

@[simp] theorem following_nil (result : Option (List α × List α)) :
    following [] result = result := by
  cases result <;> simp [following]

theorem following_append (front back : List α) (result : Option (List α × List α)) :
    following front (following back result) = following (front ++ back) result := by
  cases result <;> simp [following]

@[simp] theorem matched_nil (xs : List α) : matched [] xs = some ([], xs) := rfl

theorem matched_cons (piece : Piece α) (pieces : List (Piece α)) (xs : List α) :
    matched (piece :: pieces) xs =
      (piece xs).findSome? fun way => following way.1 (matched pieces way.2) := by
  rw [matched, matchAll]
  induction piece xs with
  | nil => rfl
  | cons way ways ih =>
      rw [List.findSome?_cons, List.findSome?_cons]
      cases hway : matchAll pieces way.2 with
      | none => simpa [matched, hway, following] using ih
      | some result => simp [matched, hway, following]

/-! ## Words in a list -/

/-- Two beginnings of a list of which one is not longer. -/
theorem prefix_append_iff {word front back : List α} (h : ∀ x ∈ back.head?, x ∉ word) :
    word <+: front ++ back ↔ word <+: front := by
  refine ⟨fun hword => ?_, fun hword => hword.trans (List.prefix_append front back)⟩
  rcases List.prefix_or_prefix_of_prefix hword (List.prefix_append front back) with hword' | hfront
  · exact hword'
  · obtain ⟨y, rfl⟩ := hfront
    rw [List.prefix_append_right_inj] at hword
    cases y with
    | nil => simp
    | cons x y =>
        cases back with
        | nil => simp at hword
        | cons z back =>
            rw [List.cons_prefix_cons] at hword
            exact absurd (by simp [hword.1]) (h z rfl)

/-- A word that has its first element nowhere else does not overlap itself. -/
theorem prefix_append_self_iff {x : α} {word front back : List α} (hx : x ∉ word)
    (hne : front ≠ []) : x :: word <+: front ++ x :: (word ++ back) ↔ x :: word <+: front := by
  refine ⟨fun hword => ?_, fun hword => hword.trans (List.prefix_append _ _)⟩
  obtain ⟨y, front, rfl⟩ := List.exists_cons_of_ne_nil hne
  rw [List.cons_append, List.cons_prefix_cons] at hword
  rw [List.cons_prefix_cons]
  exact ⟨hword.1, (prefix_append_iff (by simpa using hx)).mp hword.2⟩

/-! ## One or more elements -/

section

variable {p : α → Bool} {run rest : List α}

/-- Where an element does not satisfy `p`, the piece does not match. -/
theorem oneOrMore_eq_nil (h : ∀ x ∈ rest.head?, p x = false) : oneOrMore p rest = [] := by
  cases rest with
  | nil => rfl
  | cons x rest => simp [oneOrMore, h x rfl]

/-- The preferred match is the whole run, and the others leave something of the run. -/
theorem oneOrMore_run (hne : run ≠ []) (hrun : ∀ x ∈ run, p x = true)
    (hrest : ∀ x ∈ rest.head?, p x = false) :
    ∃ shorter, oneOrMore p (run ++ rest) = (run, rest) :: shorter ∧
      (∀ way ∈ shorter, ∃ front back, front ≠ [] ∧ back ≠ [] ∧ run = front ++ back ∧
        way = (front, back ++ rest)) ∧ (shorter = [] ↔ run.length = 1) := by
  induction run with
  | nil => exact absurd rfl hne
  | cons x run ih =>
      have hx := hrun x List.mem_cons_self
      by_cases hnil : run = []
      · subst hnil
        refine ⟨[], ?_, by simp, by simp⟩
        simp [oneOrMore, hx, oneOrMore_eq_nil hrest]
      · -- Longer matches come first: those of the rest, and then the element alone.
        obtain ⟨shorter, heq, hways, -⟩ :=
          ih hnil fun y hy => hrun y (List.mem_cons_of_mem x hy)
        refine ⟨shorter.map (fun way => (x :: way.1, way.2)) ++ [([x], run ++ rest)], ?_, ?_, ?_⟩
        · rw [List.cons_append, oneOrMore, if_pos hx, heq]
          simp
        · intro way hway
          rcases List.mem_append.mp hway with hway | hway
          · obtain ⟨way, hmem, rfl⟩ := List.mem_map.mp hway
            obtain ⟨front, back, hfront, hback, hsplit, rfl⟩ := hways way hmem
            exact ⟨x :: front, back, List.cons_ne_nil x front, hback, by simp [hsplit], rfl⟩
          · exact ⟨[x], run, List.cons_ne_nil x [], hnil, rfl, List.mem_singleton.mp hway⟩
        · simp [hnil]

/-- A pattern that starts with such a piece does not match elsewhere. -/
theorem matched_oneOrMore_eq_none (pieces : List (Piece α))
    (h : ∀ x ∈ rest.head?, p x = false) : matched (oneOrMore p :: pieces) rest = none := by
  rw [matched_cons, oneOrMore_eq_nil h]
  rfl

/-- At the end of a pattern the whole run is matched. -/
theorem matched_oneOrMore_last (hne : run ≠ []) (hrun : ∀ x ∈ run, p x = true)
    (hrest : ∀ x ∈ rest.head?, p x = false) :
    matched [oneOrMore p] (run ++ rest) = some (run, rest) := by
  obtain ⟨shorter, heq, -, -⟩ := oneOrMore_run hne hrun hrest
  rw [matched_cons, heq]
  simp

/-- Before pieces that do not match within the run, the whole run is matched or nothing. -/
theorem matched_oneOrMore {pieces : List (Piece α)} (hne : run ≠ [])
    (hrun : ∀ x ∈ run, p x = true) (hrest : ∀ x ∈ rest.head?, p x = false)
    (hnext : ∀ x xs, p x = true → matched pieces (x :: xs) = none) :
    matched (oneOrMore p :: pieces) (run ++ rest) = following run (matched pieces rest) := by
  obtain ⟨shorter, heq, hways, -⟩ := oneOrMore_run hne hrun hrest
  have hshorter : shorter.findSome? (fun way => following way.1 (matched pieces way.2)) = none := by
    rw [List.findSome?_eq_none_iff]
    intro way hway
    obtain ⟨front, back, -, hback, hsplit, rfl⟩ := hways way hway
    obtain ⟨x, back, rfl⟩ := List.exists_cons_of_ne_nil hback
    rw [List.cons_append, hnext x _ (hrun x (by simp [hsplit]))]
    rfl
  rw [matched_cons, heq, List.findSome?_cons, hshorter]
  cases following run (matched pieces rest) <;> rfl

/-- Two such pieces in a row divide the run between them, if it has two elements. -/
theorem matched_oneOrMore_twice {pieces : List (Piece α)} (hne : run ≠ [])
    (hrun : ∀ x ∈ run, p x = true) (hrest : ∀ x ∈ rest.head?, p x = false)
    (hnext : ∀ x xs, p x = true → matched pieces (x :: xs) = none) :
    matched (oneOrMore p :: oneOrMore p :: pieces) (run ++ rest) =
      if 2 ≤ run.length then following run (matched pieces rest) else none := by
  obtain ⟨shorter, heq, hways, hlength⟩ := oneOrMore_run hne hrun hrest
  -- Wherever the first piece stops, the second one takes what is left of the run.
  have hvalue : ∀ way ∈ shorter, following way.1 (matched (oneOrMore p :: pieces) way.2) =
      following run (matched pieces rest) := by
    intro way hway
    obtain ⟨front, back, -, hback, hsplit, rfl⟩ := hways way hway
    have hrunBack : ∀ x ∈ back, p x = true := fun x hx => hrun x (by simp [hsplit, hx])
    rw [matched_oneOrMore hback hrunBack hrest hnext, following_append, hsplit]
  have hpos : 0 < run.length := List.length_pos_iff.mpr hne
  rw [matched_cons, heq, List.findSome?_cons, matched_oneOrMore_eq_none pieces hrest]
  cases shorter with
  | nil =>
      have hone := hlength.mp rfl
      rw [if_neg (by omega)]
      rfl
  | cons way ways =>
      have hone : run.length ≠ 1 := fun h => List.cons_ne_nil way ways (hlength.mpr h)
      rw [if_pos (by omega)]
      cases hresult : following run (matched pieces rest) with
      | none =>
          refine List.findSome?_eq_none_iff.mpr fun other hother => ?_
          rw [hvalue other hother, hresult]
      | some result =>
          rw [following_none, List.findSome?_cons, hvalue way List.mem_cons_self, hresult]

end

/-! ## One of several words -/

section

variable [DecidableEq α] {p : α → Bool}

theorem matched_oneOf (words : List (List α)) (pieces : List (Piece α)) (xs : List α) :
    matched (oneOf words :: pieces) xs = words.findSome? fun word =>
      if word <+: xs then following word (matched pieces (xs.drop word.length)) else none := by
  rw [matched_cons, oneOf, List.findSome?_map]
  induction words with
  | nil => rfl
  | cons word words ih =>
      rw [List.filter_cons, List.findSome?_cons]
      by_cases hword : word <+: xs
      · rw [if_pos (List.isPrefixOf_iff_prefix.mpr hword), List.findSome?_cons, if_pos hword, ih]
        rfl
      · rw [if_neg fun h => hword (List.isPrefixOf_iff_prefix.mp h), if_neg hword, ih]

/-- Words do not match where one of their elements is missing. -/
theorem matched_oneOf_eq_none {words : List (List α)} (pieces : List (Piece α)) {x : α}
    (xs : List α) (h : ∀ word ∈ words, word ≠ [] ∧ x ∉ word) :
    matched (oneOf words :: pieces) (x :: xs) = none := by
  rw [matched_oneOf, List.findSome?_eq_none_iff]
  intro word hword
  refine if_neg fun hstart => ?_
  obtain ⟨y, word', rfl⟩ := List.exists_cons_of_ne_nil (h word hword).1
  rw [List.cons_prefix_cons] at hstart
  exact (h _ hword).2 (by simp [hstart.1])

/-- The empty word can always be left out. -/
theorem matched_oneOf_nil (pieces : List (Piece α)) (xs : List α) :
    matched (oneOf [[]] :: pieces) xs = matched pieces xs := by
  rw [matched_oneOf]
  cases hresult : matched pieces xs <;> simp [hresult]

/-- Between separators only a whole field matches one of the words. -/
theorem matched_oneOf_field {words : List (List α)} (pieces : List (Piece α))
    {field rest : List α} (hwords : ∀ word ∈ words, ∀ x ∈ word, p x = false)
    (hfield : ∀ x ∈ field, p x = false) (hrest : ∀ x ∈ rest.head?, p x = true) :
    matched (oneOf words :: oneOrMore p :: pieces) (field ++ rest) =
      if field ∈ words then following field (matched (oneOrMore p :: pieces) rest) else none := by
  have hvalue : ∀ word ∈ words, (if word <+: field ++ rest then following word
      (matched (oneOrMore p :: pieces) ((field ++ rest).drop word.length)) else none) =
        if word = field then following field (matched (oneOrMore p :: pieces) rest) else none := by
    intro word hword
    have hfree : ∀ x ∈ rest.head?, x ∉ word := fun x hx hmem => by
      have hsep := hrest x hx
      rw [hwords word hword x hmem] at hsep
      cases hsep
    by_cases hequal : word = field
    · subst hequal
      rw [if_pos (List.prefix_append word rest), if_pos rfl, List.drop_left]
    · rw [if_neg hequal]
      by_cases hstart : word <+: field
      · obtain ⟨back, rfl⟩ := hstart
        -- What is left of the field is no separator.
        obtain ⟨x, back, rfl⟩ := List.exists_cons_of_ne_nil fun hnil : back = [] =>
          hequal (by simp [hnil])
        rw [List.append_assoc, if_pos (List.prefix_append _ _), List.drop_left,
          matched_oneOrMore_eq_none pieces (by simp [hfield x (by simp)])]
        rfl
      · exact if_neg fun h => hstart ((prefix_append_iff hfree).mp h)
  rw [matched_oneOf]
  by_cases hmem : field ∈ words
  · rw [if_pos hmem]
    cases hresult : following field (matched (oneOrMore p :: pieces) rest) with
    | none =>
        refine List.findSome?_eq_none_iff.mpr fun word hword => ?_
        rw [hvalue word hword, hresult, ite_self]
    | some result =>
        obtain ⟨before, after, rfl, hbefore⟩ := List.eq_append_cons_of_mem hmem
        have hnone : before.findSome? (fun word => if word <+: field ++ rest then following word
            (matched (oneOrMore p :: pieces) ((field ++ rest).drop word.length)) else none) =
              none := by
          refine List.findSome?_eq_none_iff.mpr fun word hword => ?_
          rw [hvalue word (by simp [hword]), if_neg fun heq : word = field => hbefore (heq ▸ hword)]
        rw [List.findSome?_append, hnone, List.findSome?_cons, hvalue field (by simp), if_pos rfl,
          hresult]
        rfl
  · rw [if_neg hmem]
    refine List.findSome?_eq_none_iff.mpr fun word hword => ?_
    rw [hvalue word hword, if_neg fun heq : word = field => hmem (heq ▸ hword)]

end

/-! ## Substitution -/

/-- A match at the beginning is replaced. -/
theorem substitute_of_matched {pattern : List (Piece α)} {xs front rest : List α}
    (h : matched pattern xs = some (front, rest)) (f : List α → List α) :
    substitute pattern (fun groups => f groups.flatten) xs = f front ++ rest := by
  obtain ⟨result, hresult, heq⟩ := Option.map_eq_some_iff.mp h
  obtain ⟨rfl, rfl⟩ := Prod.mk.inj heq
  cases xs <;> rw [substitute, hresult]

/-- Elements at which no match begins are kept. -/
theorem substitute_append {pattern : List (Piece α)} (replacement : List (List α) → List α)
    {skipped rest : List α} (h : ∀ front back, skipped = front ++ back → back ≠ [] →
      matched pattern (back ++ rest) = none) :
    substitute pattern replacement (skipped ++ rest) =
      skipped ++ substitute pattern replacement rest := by
  induction skipped with
  | nil => rfl
  | cons x skipped ih =>
      have hnone := h [] (x :: skipped) rfl (List.cons_ne_nil x skipped)
      rw [matched, Option.map_eq_none_iff, List.cons_append] at hnone
      rw [List.cons_append, substitute, hnone]
      exact congrArg (x :: ·) (ih fun front back hsplit hback =>
        h (x :: front) back (by rw [hsplit, List.cons_append]) hback)

theorem substitute_nil {pattern : List (Piece α)} (replacement : List (List α) → List α)
    (h : matched pattern [] = none) : substitute pattern replacement [] = [] := by
  rw [matched, Option.map_eq_none_iff] at h
  rw [substitute, h]

/-! ## Copies of a word -/

section

variable [DecidableEq α]

/-- The list with the first run of copies of the word replaced by a single copy. -/
def collapse (word : List α) : List α → List α :=
  substitute [oneOrMoreOf word] fun _ => word

omit [DecidableEq α] in
theorem matched_singleton (piece : Piece α) (xs : List α) :
    matched [piece] xs = (piece xs).head? := by
  rw [matched_cons]
  cases piece xs <;> simp

theorem copies_eq_nil {word xs : List α} (h : ¬ word <+: xs) (n : Nat) :
    copies word n xs = [] := by
  cases n with
  | zero => rfl
  | succ n => exact if_neg fun hstart => h (List.isPrefixOf_iff_prefix.mp hstart)

/-- As many copies as there are are matched. -/
theorem copies_run {word rest : List α} (h : ¬ word <+: rest) {k n : Nat} (hn : k < n) :
    (copies word n ((List.replicate (k + 1) word).flatten ++ rest)).head? =
      some ((List.replicate (k + 1) word).flatten, rest) := by
  induction k generalizing n with
  | zero =>
      obtain ⟨n, rfl⟩ := Nat.exists_eq_add_of_lt hn
      have hstart : word.isPrefixOf (word ++ rest) = true := by simp
      rw [Nat.zero_add, Nat.zero_add, List.replicate_one, List.flatten_singleton, copies,
        if_pos hstart, List.drop_left, copies_eq_nil h]
      rfl
  | succ k ih =>
      obtain ⟨n, rfl⟩ : ∃ m, n = m + 1 := ⟨n - 1, by omega⟩
      have hstart : word.isPrefixOf
          (word ++ ((List.replicate (k + 1) word).flatten ++ rest)) = true := by simp
      rw [List.replicate_succ, List.flatten_cons, List.append_assoc, copies, if_pos hstart,
        List.drop_left, List.head?_append, List.head?_map, ih (by omega)]
      rfl

variable {x : α} {word : List α}

theorem matched_oneOrMoreOf_eq_none {word xs : List α} (h : ¬ word <+: xs) :
    matched [oneOrMoreOf word] xs = none := by
  rw [matched_singleton, oneOrMoreOf, copies_eq_nil h]
  rfl

/-- A list without the word is kept. -/
theorem collapse_of_absent {xs : List α} (hne : word ≠ []) (h : ¬ word <:+: xs) :
    collapse word xs = xs := by
  have hnone : ∀ front back, xs = front ++ back → ¬ word <+: back := fun front back hsplit hback =>
    h (hsplit ▸ hback.isInfix.trans (List.suffix_append front back).isInfix)
  have hskip : collapse word (xs ++ []) = xs ++ collapse word [] :=
    substitute_append _ fun front back hsplit _ => by
      rw [List.append_nil]
      exact matched_oneOrMoreOf_eq_none (hnone front back hsplit)
  have hnil : ¬ word <+: [] := by simpa using hne
  have hempty : collapse word [] = [] := substitute_nil _ (matched_oneOrMoreOf_eq_none hnil)
  rwa [List.append_nil, hempty, List.append_nil] at hskip

/-- The first run of copies becomes a single copy. -/
theorem collapse_run (hx : x ∉ word) {front rest : List α} (hfront : ¬ x :: word <:+: front)
    (hrest : ¬ x :: word <+: rest) (k : Nat) :
    collapse (x :: word) (front ++ ((List.replicate (k + 1) (x :: word)).flatten ++ rest)) =
      front ++ (x :: word ++ rest) := by
  have hmatched : matched [oneOrMoreOf (x :: word)]
      ((List.replicate (k + 1) (x :: word)).flatten ++ rest) =
        some ((List.replicate (k + 1) (x :: word)).flatten, rest) := by
    rw [matched_singleton, oneOrMoreOf]
    refine copies_run hrest ?_
    have hlength : (List.replicate (k + 1) (x :: word)).flatten.length =
        (k + 1) * (word.length + 1) := by simp
    rw [List.length_append, hlength]
    have hle := Nat.le_mul_of_pos_right (k + 1) (Nat.zero_lt_succ word.length)
    rw [Nat.succ_eq_add_one] at hle
    omega
  rw [collapse, substitute_append, substitute_of_matched hmatched fun _ => x :: word]
  intro before back hsplit hback
  refine matched_oneOrMoreOf_eq_none fun hword => ?_
  have hshape : (List.replicate (k + 1) (x :: word)).flatten ++ rest =
      x :: (word ++ ((List.replicate k (x :: word)).flatten ++ rest)) := by
    simp [List.replicate_succ]
  rw [hshape, prefix_append_self_iff hx hback] at hword
  exact hfront (hsplit ▸ hword.isInfix.trans (List.suffix_append before back).isInfix)

/-- A list that starts with the word starts with a run of copies. -/
theorem exists_copies {xs : List α} (hne : word ≠ []) (h : word <+: xs) :
    ∃ k rest, xs = (List.replicate (k + 1) word).flatten ++ rest ∧ ¬ word <+: rest := by
  induction hlength : xs.length using Nat.strongRecOn generalizing xs with
  | ind n ih =>
      obtain ⟨rest, rfl⟩ := h
      by_cases hmore : word <+: rest
      · have hshort : rest.length < n := by
          have hpos := List.length_pos_iff.mpr hne
          rw [List.length_append] at hlength
          omega
        obtain ⟨k, rest', heq, hrest'⟩ := ih rest.length hshort hmore rfl
        exact ⟨k + 1, rest', by simp [heq, List.replicate_succ], hrest'⟩
      · exact ⟨0, rest, by simp, hmore⟩

/-- A list that contains the word consists of what stands before its first run of copies, the run
and the rest. -/
theorem exists_run {xs : List α} (hne : word ≠ []) (h : word <:+: xs) :
    ∃ front k rest, xs = front ++ ((List.replicate (k + 1) word).flatten ++ rest) ∧
      ¬ word <:+: front ∧ ¬ word <+: rest := by
  induction xs with
  | nil => exact absurd (List.infix_nil.mp h) hne
  | cons y xs ih =>
      by_cases hstart : word <+: y :: xs
      · obtain ⟨k, rest, heq, hrest⟩ := exists_copies hne hstart
        exact ⟨[], k, rest, heq, by simpa using hne, hrest⟩
      · obtain ⟨front, k, rest, rfl, hfront, hrest⟩ :=
          ih ((List.infix_cons_iff.mp h).resolve_left hstart)
        refine ⟨y :: front, k, rest, rfl, fun hpresent => ?_, hrest⟩
        rcases List.infix_cons_iff.mp hpresent with hprefixed | hpresent
        · exact hstart (hprefixed.trans (List.prefix_append (y :: front) _))
        · exact hfront hpresent

end

end Library
