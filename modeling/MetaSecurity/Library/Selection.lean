import Mathlib.Data.List.Basic

/-!
# Selection by positive and negative rules

A list of rules selects an item when one of its rules matches it positively and none matches it
negatively. The order of the rules does not matter, so a list can be extended at either end;
`Undisturbed` says exactly when the rules that were there before make no difference.
-/

namespace Library

variable {ρ ρ' α β ι : Type*}

/-- A rule of the list matches the item. -/
def matchedBy (rel : ρ → α → Bool) (rules : List ρ) (x : α) : Bool :=
  rules.any fun rule => rel rule x

/-- The item is selected by the rules. -/
def selected (positive negative : ρ → α → Bool) (rules : List ρ) (x : α) : Bool :=
  matchedBy positive rules x && !matchedBy negative rules x

variable {positive negative : ρ → α → Bool} {earlier own : List ρ} {x : α}

/-- A rule of a joined list comes from one of its parts. -/
theorem matchedBy_append (rel : ρ → α → Bool) :
    matchedBy rel (earlier ++ own) x = (matchedBy rel earlier x || matchedBy rel own x) :=
  List.any_append

/-- The item is treated by `earlier ++ own` as it is by `own` alone: what only `earlier` matches
positively is matched negatively by one of them, and what `earlier` matches negatively is not
selected by `own`. -/
structure Undisturbed (positive negative : ρ → α → Bool) (earlier own : List ρ) (x : α) : Prop where
  added : matchedBy positive earlier x = true → matchedBy positive own x = true ∨
    matchedBy negative earlier x = true ∨ matchedBy negative own x = true
  removed : matchedBy negative earlier x = true → selected positive negative own x = false

/-- `Undisturbed` says what its name says. -/
theorem selected_append_eq_iff :
    selected positive negative (earlier ++ own) x = selected positive negative own x ↔
      Undisturbed positive negative earlier own x := by
  have hsplit : Undisturbed positive negative earlier own x ↔
      (matchedBy positive earlier x = true → matchedBy positive own x = true ∨
        matchedBy negative earlier x = true ∨ matchedBy negative own x = true) ∧
      (matchedBy negative earlier x = true → selected positive negative own x = false) :=
    ⟨fun h => ⟨h.added, h.removed⟩, fun h => ⟨h.1, h.2⟩⟩
  rw [hsplit]
  unfold selected
  rw [matchedBy_append, matchedBy_append]
  cases matchedBy positive earlier x <;> cases matchedBy negative earlier x <;>
    cases matchedBy positive own x <;> cases matchedBy negative own x <;> decide

/-- Rules that match nothing make no difference. -/
theorem Undisturbed.of_unmatched (hpositive : matchedBy positive earlier x = false)
    (hnegative : matchedBy negative earlier x = false) :
    Undisturbed positive negative earlier own x :=
  ⟨fun h => by simp [hpositive] at h, fun h => by simp [hnegative] at h⟩

/-- Rules that are there a second time make no difference. -/
theorem Undisturbed.of_subset (h : earlier ⊆ own) :
    Undisturbed positive negative earlier own x := by
  have hmatched : ∀ rel : ρ → α → Bool, matchedBy rel earlier x = true →
      matchedBy rel own x = true := by
    intro rel hrel
    obtain ⟨rule, hrule, hx⟩ := List.any_eq_true.mp hrel
    exact List.any_eq_true.mpr ⟨rule, h hrule, hx⟩
  refine ⟨fun hpositive => Or.inl (hmatched _ hpositive), fun hnegative => ?_⟩
  simp [selected, hmatched _ hnegative]

/-- Rules that match an item exactly when their images match the image of the item select it
exactly when their images select the image. -/
theorem selected_map_eq {positive' negative' : ρ' → β → Bool} {items : List ι}
    {f : ι → ρ} {g : ι → ρ'} {y : β}
    (h : ∀ item ∈ items, positive (f item) x = positive' (g item) y ∧
      negative (f item) x = negative' (g item) y) :
    selected positive negative (items.map f) x = selected positive' negative' (items.map g) y := by
  have hany : ∀ {rel : ρ → α → Bool} {rel' : ρ' → β → Bool},
      (∀ item ∈ items, rel (f item) x = rel' (g item) y) →
      matchedBy rel (items.map f) x = matchedBy rel' (items.map g) y := by
    intro rel rel' hrel
    rw [Bool.eq_iff_iff]
    simp only [matchedBy, List.any_map, List.any_eq_true, Function.comp_apply]
    refine exists_congr fun item => and_congr_right fun hitem => ?_
    rw [hrel item hitem]
  rw [selected, selected, hany fun item hitem => (h item hitem).1,
    hany fun item hitem => (h item hitem).2]

end Library
