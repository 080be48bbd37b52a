import Mathlib.Data.List.Basic

/-!
# Submitting items until the first rejection

A client hands a list of items, one after the other, to a server that accepts or rejects each
of them and may look at everything it was handed before. The client stops at the first
rejection. `FailStop` is the property a client wants to have, and `submit_spec` says that the
loop `submit` has it.
-/

namespace Library

variable {α : Type*}

/-- The server's decision on an item, given the items handed over before it. -/
abbrev Decision (α : Type*) := List α → α → Bool

/-- Hand over `items` after those in `history`; the second component says whether all of them
were accepted. -/
def submit (accept : Decision α) : List α → List α → List α × Bool
  | history, [] => (history, true)
  | history, item :: items =>
      if accept history item then submit accept (history ++ [item]) items
      else (history ++ [item], false)

/-- `FailStop accept items submitted ok`: the submitted items are an initial segment of `items`,
nothing follows a rejected item, the segment is proper only after a rejection, and `ok` says
that everything was accepted. -/
structure FailStop (accept : Decision α) (items submitted : List α) (ok : Bool) : Prop where
  initial : submitted <+: items
  stops : ∀ before item after, submitted = before ++ item :: after →
    accept before item = false → after = []
  complete : submitted = items ∨
    ∃ before item, submitted = before ++ [item] ∧ accept before item = false
  accepted : ok = true ↔ submitted = items ∧
    ∀ before item after, submitted = before ++ item :: after → accept before item = true

/-- A position in a list with a known front lies in the front or behind it. -/
private theorem split_append {front back before after : List α} {item : α}
    (h : front ++ back = before ++ item :: after) :
    (∃ rest, front = before ++ item :: rest) ∨ ∃ mid, before = front ++ mid := by
  rcases List.append_eq_append_iff.mp h with ⟨mid, hmid, -⟩ | ⟨mid, hmid, hback⟩
  · exact Or.inr ⟨mid, hmid⟩
  · cases mid with
    | nil => exact Or.inr ⟨[], by simpa using hmid.symm⟩
    | cons x mid =>
        simp only [List.cons_append, List.cons.injEq] at hback
        exact Or.inl ⟨mid, by rw [hmid, hback.1]⟩

/-- One rejection ends a run whose earlier items were all accepted. -/
private theorem failStop_reject {accept : Decision α} {history items : List α} {item : α}
    (hhistory : ∀ before x after, history = before ++ x :: after → accept before x = true)
    (hreject : accept history item = false) :
    FailStop accept (history ++ item :: items) (history ++ [item]) false where
  initial := ⟨items, by simp⟩
  stops := by
    intro before x after heq hx
    rcases split_append heq with ⟨rest, hrest⟩ | ⟨mid, hmid⟩
    · simp [hhistory before x rest hrest] at hx
    · have hlen := congrArg List.length heq
      have hmidlen := congrArg List.length hmid
      simp only [List.length_append, List.length_cons, List.length_nil] at hlen hmidlen
      exact List.length_eq_zero_iff.mp (by omega)
  complete := Or.inr ⟨history, item, rfl, hreject⟩
  accepted := by
    refine ⟨fun h => by simp at h, fun h => ?_⟩
    simpa [hreject] using h.2 history item [] rfl

/-- Submitting one by one has the property, from any accepted history. -/
theorem submit_spec (accept : Decision α) (history items : List α)
    (hhistory : ∀ before x after, history = before ++ x :: after → accept before x = true) :
    FailStop accept (history ++ items) (submit accept history items).1
      (submit accept history items).2 := by
  induction items generalizing history with
  | nil =>
      refine ⟨by simp [submit], ?_, Or.inl (by simp [submit]), by simpa [submit] using hhistory⟩
      intro before x after heq hx
      simp [hhistory before x after heq] at hx
  | cons item items ih =>
      cases haccept : accept history item with
      | false => simpa [submit, haccept] using failStop_reject hhistory haccept
      | true =>
          have hnext : ∀ before x after, history ++ [item] = before ++ x :: after →
              accept before x = true := by
            intro before x after heq
            rcases split_append heq with ⟨rest, hrest⟩ | ⟨mid, rfl⟩
            · exact hhistory before x rest hrest
            · cases mid with
              | nil =>
                  simp only [List.append_nil, List.append_cancel_left_eq, List.cons.injEq] at heq
                  rw [List.append_nil, ← heq.1, haccept]
              | cons y mid =>
                  have hlen := congrArg List.length heq
                  simp only [List.length_append, List.length_cons, List.length_nil] at hlen
                  omega
          simpa [submit, haccept] using ih (history ++ [item]) hnext

/-- When every item is accepted, all of them are submitted. -/
theorem submit_accepting {accept : Decision α} (h : ∀ history item, accept history item = true)
    (history items : List α) : submit accept history items = (history ++ items, true) := by
  induction items generalizing history with
  | nil => simp [submit]
  | cons item items ih => simp [submit, h, ih]

end Library
