import MetaSecurity.Signing.Fstab

/-!
# The edited lines

The second substitution works on the fields of a line, too, so that `editLine_rowText` gives the
fields of an edited line. White space stays as it is: an edited file has the lines of the original
one (`lines_editFstab`).
-/

namespace MetaSecurity.Signing

open Library Shell

/-! ## The second substitution -/

theorem iversion_eq : iversion = ',' :: "iversion".toList := rfl

theorem comma_not_mem : ',' ∉ "iversion".toList := by decide

theorem iversion_ne_nil : iversion ≠ [] := List.cons_ne_nil _ _

theorem iversion_not_prefix_nil : ¬ iversion <+: [] := fun h =>
  iversion_ne_nil (List.prefix_nil.mp h)

theorem not_space_of_mem_iversion {c : Char} (h : c ∈ iversion) : isPerlSpace c = false := by
  have hall : iversion.Forall fun c => isPerlSpace c = false := by decide
  exact List.forall_iff_forall_mem.mp hall c h

/-- The option does not reach beyond a field. -/
theorem iversion_prefix_iff {front rest : Text} (h : ∀ c ∈ rest.head?, isPerlSpace c = true) :
    iversion <+: front ++ rest ↔ iversion <+: front := by
  refine prefix_append_iff fun c hc hmem => ?_
  have hspace := h c hc
  rw [not_space_of_mem_iversion hmem] at hspace
  cases hspace

/-- The copies of the option at the first place where it stands. -/
structure FirstRun (t front : Text) (k : Nat) (rest : Text) : Prop where
  eq : t = front ++ ((List.replicate (k + 1) iversion).flatten ++ rest)
  before : ¬ iversion <:+: front
  after : ¬ iversion <+: rest

theorem exists_firstRun {t : Text} (h : iversion <:+: t) :
    ∃ front k rest, FirstRun t front k rest := by
  obtain ⟨front, k, rest, heq, hfront, hrest⟩ := exists_run iversion_ne_nil h
  exact ⟨front, k, rest, heq, hfront, hrest⟩

theorem FirstRun.present {t front rest : Text} {k : Nat} (h : FirstRun t front k rest) :
    iversion <:+: t := by
  rw [h.eq, List.replicate_succ, List.flatten_cons, List.append_assoc, ← List.append_assoc front]
  exact ⟨front, _, rfl⟩

/-- One copy is left of the run. -/
theorem FirstRun.collapse_eq {t front rest : Text} {k : Nat} (h : FirstRun t front k rest) :
    collapseIversion t = front ++ (iversion ++ rest) := by
  rw [h.eq]
  exact collapse_run comma_not_mem h.before h.after k

theorem collapseIversion_of_absent {t : Text} (h : ¬ iversion <:+: t) : collapseIversion t = t :=
  collapse_of_absent iversion_ne_nil h

/-- A field with more behind it. -/
theorem FirstRun.append {t front rest back : Text} {k : Nat} (h : FirstRun t front k rest)
    (hback : ∀ c ∈ back.head?, isPerlSpace c = true) :
    FirstRun (t ++ back) front k (rest ++ back) where
  eq := by rw [h.eq, List.append_assoc, List.append_assoc]
  before := h.before
  after := fun hprefixed => h.after ((iversion_prefix_iff hback).mp hprefixed)

/-- What stands behind the run does not become an option when one is appended. -/
theorem FirstRun.after_append {t front rest : Text} {k : Nat} (h : FirstRun t front k rest)
    (hne : rest ≠ []) (more : Text) : ¬ iversion <+: rest ++ (iversion ++ more) := by
  intro hprefixed
  rw [iversion_eq, List.cons_append, prefix_append_self_iff comma_not_mem hne] at hprefixed
  exact h.after (iversion_eq ▸ hprefixed)

section

variable {words : List Text} {cells : List (Cell Char)} {lead : Text}

/-- The second substitution works on the cells. -/
theorem collapseIversion_rowText (hlead : ∀ c ∈ lead, isPerlSpace c = true)
    (hcells : IsCells isPerlSpace cells) :
    collapseIversion (rowText (lead, cells)) = rowText (lead, collapseFirst cells) := by
  have hskip : ∀ {t : Text} (rest : Text), (∀ front back, t = front ++ back → back ≠ [] →
      ¬ iversion <+: back ++ rest) → collapseIversion (t ++ rest) = t ++ collapseIversion rest :=
    fun rest ht => substitute_append _ fun front back hsplit hback =>
      matched_oneOrMoreOf_eq_none (ht front back hsplit hback)
  have hspace : ∀ {t : Text} (rest : Text), (∀ c ∈ t, isPerlSpace c = true) →
      collapseIversion (t ++ rest) = t ++ collapseIversion rest := by
    refine fun rest ht => hskip rest fun front back hsplit hback hprefixed => ?_
    obtain ⟨c, back, rfl⟩ := List.exists_cons_of_ne_nil hback
    rw [iversion_eq, List.cons_append, List.cons_prefix_cons] at hprefixed
    have hcomma := ht c (by simp [hsplit])
    rw [← hprefixed.1] at hcomma
    exact absurd hcomma (by decide)
  rw [rowText, hspace _ hlead, rowText]
  refine congrArg (lead ++ ·) ?_
  induction cells with
  | nil => exact collapseIversion_of_absent (by simp [iversion_eq])
  | cons cell cells ih =>
      have hafter := hcells.head_after
      rw [collapseFirst]
      by_cases hpresent : iversion <:+: cell.1
      · obtain ⟨front, k, rest, hrun⟩ := exists_firstRun hpresent
        rw [if_pos hpresent, cellsText_cons, cellsText_cons, (hrun.append hafter).collapse_eq,
          hrun.collapse_eq]
        simp
      -- A repetition that begins in the field also ends in it, since white space follows.
      · have hfield : ∀ front back, cell.1 = front ++ back → back ≠ [] →
            ¬ iversion <+: back ++ (cell.2 ++ cellsText cells) := by
          intro front back hsplit _ hprefixed
          refine hpresent (hsplit ▸ ?_)
          exact ((iversion_prefix_iff hafter).mp hprefixed).isInfix.trans
            (List.suffix_append front back).isInfix
        rw [if_neg hpresent, cellsText_cons, cellsText_cons, hskip _ hfield, hspace _ hcells.2.2.1,
          ih hcells.2.2.2.2]

/-! ## The edited line -/

/-- Other fields between the same separators. -/
structure SameSeparators (cells cells' : List (Cell Char)) : Prop where
  isCells : IsCells isPerlSpace cells'
  separators : cells'.map Prod.snd = cells.map Prod.snd

theorem withIversion_field {cell : Cell Char}
    (h : cell.1 ≠ [] ∧ ∀ c ∈ cell.1, isPerlSpace c = false) :
    (withIversion cell).1 ≠ [] ∧ ∀ c ∈ (withIversion cell).1, isPerlSpace c = false := by
  refine ⟨List.append_ne_nil_of_left_ne_nil h.1 iversion, fun c hc => ?_⟩
  exact (List.mem_append.mp hc).elim (h.2 c) not_space_of_mem_iversion

theorem collapseIversion_field {t : Text} (h : t ≠ [] ∧ ∀ c ∈ t, isPerlSpace c = false) :
    collapseIversion t ≠ [] ∧ ∀ c ∈ collapseIversion t, isPerlSpace c = false := by
  by_cases hpresent : iversion <:+: t
  · obtain ⟨front, k, rest, hrun⟩ := exists_firstRun hpresent
    rw [hrun.collapse_eq]
    refine ⟨by simp [iversion_eq], fun c hc => ?_⟩
    rw [hrun.eq] at h
    rcases List.mem_append.mp hc with hc | hc
    · exact h.2 c (by simp [hc])
    · rcases List.mem_append.mp hc with hc | hc
      · exact not_space_of_mem_iversion hc
      · exact h.2 c (by simp [hc])
  · rwa [collapseIversion_of_absent hpresent]

/-- A cell with another field. -/
theorem sameSeparators_set {before after : List (Cell Char)} {cell : Cell Char} {field : Text}
    (h : IsCells isPerlSpace (before ++ cell :: after))
    (hfield : field ≠ [] ∧ ∀ c ∈ field, isPerlSpace c = false) :
    SameSeparators (before ++ cell :: after) (before ++ (field, cell.2) :: after) := by
  have hsame : (before ++ (field, cell.2) :: after).map Prod.snd =
      (before ++ cell :: after).map Prod.snd := by simp
  refine ⟨h.of_separators hsame fun other hother => ?_, hsame⟩
  rcases List.mem_append.mp hother with hother | hother
  · exact h.of_mem other (by simp [hother])
  · rcases List.mem_cons.mp hother with rfl | hother
    · exact hfield
    · exact h.of_mem other (by simp [hother])

/-! ### The first match -/

/-- The cells end in those of a match that stand before its options. -/
def IsOpening (words : List Text) (before : List (Cell Char)) : Prop :=
  ∃ skipped window, before = skipped ++ window ∧ window.length = cellsBefore words ∧
    opens words window = true

/-- The pattern matches somewhere. -/
def Matches (words : List Text) (cells : List (Cell Char)) : Prop :=
  ∃ before options after, cells = before ++ options :: after ∧ IsOpening words before

/-- The next field is the one of the first match. -/
structure FirstMatch (words : List Text) (before : List (Cell Char)) : Prop where
  opening : IsOpening words before
  first : ¬ Matches words before

theorem cellsBefore_ge (words : List Text) : 2 ≤ cellsBefore words := by
  unfold cellsBefore
  split <;> omega

/-- Only the first two cells open a match. -/
theorem opens_append {window : List (Cell Char)} (h : 2 ≤ window.length)
    (after : List (Cell Char)) : opens words (window ++ after) = opens words window := by
  match window, h with
  | first :: point :: window, _ => rfl

theorem matchesHere_append {window : List (Cell Char)} (h : window.length = cellsBefore words)
    (options : Cell Char) (after : List (Cell Char)) :
    matchesHere words (window ++ options :: after) = opens words window := by
  have hlength : cellsBefore words < (window ++ options :: after).length := by
    rw [List.length_append, List.length_cons]
    omega
  rw [matchesHere, opens_append (h ▸ cellsBefore_ge words), decide_eq_true hlength, Bool.and_true]

/-- Where a match begins. -/
theorem exists_of_matchesHere (h : matchesHere words cells = true) :
    ∃ window options after, cells = window ++ options :: after ∧
      window.length = cellsBefore words ∧ opens words window = true := by
  have hlength : cellsBefore words < cells.length := by
    rw [matchesHere, Bool.and_eq_true, decide_eq_true_eq] at h
    exact h.2
  have hsplit := List.take_append_drop (cellsBefore words) cells
  rw [List.drop_eq_getElem_cons hlength] at hsplit
  have hwindow : (cells.take (cellsBefore words)).length = cellsBefore words := by
    rw [List.length_take]
    omega
  refine ⟨_, _, _, hsplit.symm, hwindow, ?_⟩
  rw [← hsplit, matchesHere_append hwindow] at h
  exact h

theorem Matches.cons {cell : Cell Char} (h : Matches words cells) :
    Matches words (cell :: cells) := by
  obtain ⟨before, options, after, rfl, skipped, window, rfl, hwindow⟩ := h
  exact ⟨cell :: (skipped ++ window), options, after, rfl, cell :: skipped, window, rfl, hwindow⟩

theorem Matches.append (h : Matches words cells) (more : List (Cell Char)) :
    Matches words (cells ++ more) := by
  obtain ⟨before, options, after, rfl, hopening⟩ := h
  exact ⟨before, options, after ++ more, by simp, hopening⟩

theorem Matches.of_here (h : matchesHere words cells = true) : Matches words cells := by
  obtain ⟨window, options, after, rfl, hwindow⟩ := exists_of_matchesHere h
  exact ⟨window, options, after, rfl, [], window, rfl, hwindow⟩

/-- A line without a match is left as it is. -/
theorem mark_of_not_matches (h : ¬ Matches words cells) : mark words cells = cells := by
  induction cells with
  | nil => rfl
  | cons cell cells ih =>
      rw [mark, if_neg fun hhere => h (.of_here hhere), ih fun hmatches => h hmatches.cons]

/-- The field of the first match gets the option. -/
theorem mark_of_first {before : List (Cell Char)} (h : FirstMatch words before)
    (options : Cell Char) (after : List (Cell Char)) :
    mark words (before ++ options :: after) = before ++ withIversion options :: after := by
  obtain ⟨⟨skipped, window, rfl, hlength, hopens⟩, hfirst⟩ := h
  induction skipped with
  | nil =>
      obtain ⟨cell, window', hcons⟩ := List.exists_cons_of_length_pos
        (lt_of_lt_of_le Nat.zero_lt_two (hlength ▸ cellsBefore_ge words))
      have hhere := matchesHere_append hlength options after
      rw [hopens] at hhere
      have hmark : mark words (window ++ options :: after) =
          (window ++ options :: after).modify (cellsBefore words) withIversion := by
        rw [hcons, List.cons_append] at hhere ⊢
        exact if_pos hhere
      rw [List.nil_append, hmark, ← hlength, List.modify_eq_take_drop, List.take_left,
        List.drop_left]
      rfl
  | cons cell skipped ih =>
      -- A match from here on would be one among the cells before the field.
      have hnot : ¬ matchesHere words (cell :: (skipped ++ window) ++ options :: after) = true := by
        intro hhere
        have htwo : 2 ≤ (cell :: (skipped ++ window)).length := by
          have hge := cellsBefore_ge words
          simp only [List.length_cons, List.length_append]
          omega
        have hlong : cellsBefore words < (cell :: (skipped ++ window)).length := by
          simp only [List.length_cons, List.length_append]
          omega
        rw [matchesHere, opens_append htwo, Bool.and_eq_true] at hhere
        refine hfirst (.of_here ?_)
        rw [matchesHere, Bool.and_eq_true]
        exact ⟨hhere.1, decide_eq_true hlong⟩
      rw [List.cons_append, List.cons_append, mark, if_neg (by simpa using hnot)]
      exact congrArg (cell :: ·) (ih fun hmatches => hfirst hmatches.cons)

/-- Among the matches there is a first one. -/
theorem exists_firstMatch (h : Matches words cells) :
    ∃ before options after, cells = before ++ options :: after ∧ FirstMatch words before := by
  obtain ⟨before, options, after, rfl, hopening⟩ := h
  induction hlength : before.length using Nat.strongRecOn generalizing before options after with
  | ind n ih =>
      by_cases hmatches : Matches words before
      · obtain ⟨before', options', after', rfl, hopening'⟩ := hmatches
        have hshort : before'.length < n := by
          rw [List.length_append, List.length_cons] at hlength
          omega
        obtain ⟨first, options'', after'', heq, hfirst⟩ :=
          ih before'.length hshort before' options' (after' ++ options :: after) hopening' rfl
        exact ⟨first, options'', after'', by simpa using heq, hfirst⟩
      · exact ⟨before, options, after, rfl, hopening, hmatches⟩

/-! ### The first field with the option -/

/-- No field contains the option. -/
def Unmarked (cells : List (Cell Char)) : Prop :=
  ∀ cell ∈ cells, ¬ iversion <:+: cell.1

theorem Unmarked.append_iff {before after : List (Cell Char)} :
    Unmarked (before ++ after) ↔ Unmarked before ∧ Unmarked after :=
  List.forall_mem_append

theorem collapseFirst_append {before : List (Cell Char)} (h : Unmarked before)
    (after : List (Cell Char)) :
    collapseFirst (before ++ after) = before ++ collapseFirst after := by
  induction before with
  | nil => rfl
  | cons cell before ih =>
      rw [List.cons_append, collapseFirst, if_neg (h cell List.mem_cons_self),
        ih fun other hother => h other (List.mem_cons_of_mem cell hother), List.cons_append]

theorem collapseFirst_of_unmarked (h : Unmarked cells) : collapseFirst cells = cells := by
  simpa [collapseFirst] using collapseFirst_append h []

theorem collapseFirst_cons_of_present {cell : Cell Char} (h : iversion <:+: cell.1)
    (after : List (Cell Char)) :
    collapseFirst (cell :: after) = (collapseIversion cell.1, cell.2) :: after :=
  if_pos h

theorem exists_of_not_unmarked (h : ¬ Unmarked cells) :
    ∃ before cell after, cells = before ++ cell :: after ∧ Unmarked before ∧
      iversion <:+: cell.1 := by
  induction cells with
  | nil => exact absurd (by simp [Unmarked]) h
  | cons cell cells ih =>
      by_cases hpresent : iversion <:+: cell.1
      · exact ⟨[], cell, cells, rfl, by simp [Unmarked], hpresent⟩
      · have hcells : ¬ Unmarked cells := fun hunmarked => h fun other hother => by
          rcases List.mem_cons.mp hother with rfl | hother
          · exact hpresent
          · exact hunmarked other hother
        obtain ⟨before, first, after, rfl, hbefore, hfirst⟩ := ih hcells
        refine ⟨cell :: before, first, after, rfl, fun other hother => ?_, hfirst⟩
        rcases List.mem_cons.mp hother with rfl | hother
        · exact hpresent
        · exact hbefore other hother

/-- Only the first such field counts. -/
theorem collapseFirst_append_of_not_unmarked {before : List (Cell Char)} (h : ¬ Unmarked before)
    (after : List (Cell Char)) :
    collapseFirst (before ++ after) = collapseFirst before ++ after := by
  obtain ⟨front, cell, back, rfl, hfront, hpresent⟩ := exists_of_not_unmarked h
  rw [List.append_assoc, collapseFirst_append hfront, collapseFirst_append hfront, List.cons_append,
    collapseFirst_cons_of_present hpresent, collapseFirst_cons_of_present hpresent,
    List.append_assoc, List.cons_append]

/-! ### Both substitutions -/

theorem present_withIversion (cell : Cell Char) : iversion <:+: (withIversion cell).1 :=
  (List.suffix_append cell.1 iversion).isInfix

theorem edit_of_not_matches (h : ¬ Matches words cells) :
    editCells words cells = collapseFirst cells := by
  rw [editCells, mark_of_not_matches h]

/-- The first match, when the option stands in no field before it. -/
theorem edit_of_unmarked {before : List (Cell Char)} (hfirst : FirstMatch words before)
    (hunmarked : Unmarked before) (options : Cell Char) (after : List (Cell Char)) :
    editCells words (before ++ options :: after) =
      before ++ (collapseIversion (options.1 ++ iversion), options.2) :: after := by
  rw [editCells, mark_of_first hfirst, collapseFirst_append hunmarked,
    collapseFirst_cons_of_present (present_withIversion options)]
  rfl

/-- The first match, when the option stands in a field before it. -/
theorem edit_of_marked {before : List (Cell Char)} (hfirst : FirstMatch words before)
    (hmarked : ¬ Unmarked before) (options : Cell Char) (after : List (Cell Char)) :
    editCells words (before ++ options :: after) =
      collapseFirst before ++ withIversion options :: after := by
  rw [editCells, mark_of_first hfirst, collapseFirst_append_of_not_unmarked hmarked]

/-! ### White space -/

theorem sameSeparators_mark (words : List Text) (h : IsCells isPerlSpace cells) :
    SameSeparators cells (mark words cells) := by
  by_cases hmatches : Matches words cells
  · obtain ⟨before, options, after, rfl, hfirst⟩ := exists_firstMatch hmatches
    rw [mark_of_first hfirst]
    exact sameSeparators_set h (withIversion_field (h.of_mem options (by simp)))
  · rw [mark_of_not_matches hmatches]
    exact ⟨h, rfl⟩

theorem sameSeparators_collapseFirst (h : IsCells isPerlSpace cells) :
    SameSeparators cells (collapseFirst cells) := by
  by_cases hunmarked : Unmarked cells
  · rw [collapseFirst_of_unmarked hunmarked]
    exact ⟨h, rfl⟩
  · obtain ⟨before, cell, after, rfl, hbefore, hpresent⟩ := exists_of_not_unmarked hunmarked
    rw [collapseFirst_append hbefore, collapseFirst_cons_of_present hpresent]
    exact sameSeparators_set h (collapseIversion_field (h.of_mem cell (by simp)))

theorem sameSeparators_edit (words : List Text) (h : IsCells isPerlSpace cells) :
    SameSeparators cells (editCells words cells) := by
  have hmark := sameSeparators_mark words h
  have hcollapse := sameSeparators_collapseFirst hmark.isCells
  exact ⟨hcollapse.isCells, hcollapse.separators.trans hmark.separators⟩

/-- The script works on the cells of a line. -/
theorem editLine_rowText (hplain : ∀ word ∈ words, IsPlain word)
    (hlead : ∀ c ∈ lead, isPerlSpace c = true) (hcells : IsCells isPerlSpace cells) :
    editLine words (rowText (lead, cells)) = rowText (lead, editCells words cells) := by
  rw [editLine, appendIversion_rowText hplain hlead hcells,
    collapseIversion_rowText hlead (sameSeparators_mark words hcells).isCells]
  rfl

/-- The edited line. -/
theorem editLine_row (hplain : ∀ word ∈ words, IsPlain word) (line : Text) :
    editLine words line =
      rowText ((row isPerlSpace line).1, editCells words (row isPerlSpace line).2) := by
  obtain ⟨htext, hlead, hcells⟩ := rowText_row isPerlSpace line
  rw [← editLine_rowText hplain hlead hcells]
  exact congrArg (editLine words) htext.symm

end

/-! ## The edited file -/

/-- A change of a line that keeps its white space. -/
def KeepsSeparators (f : Text → Text) : Prop :=
  ∀ lead cells, (∀ c ∈ lead, isPerlSpace c = true) → IsCells isPerlSpace cells →
    ∃ cells', f (rowText (lead, cells)) = rowText (lead, cells') ∧ SameSeparators cells cells'

theorem keepsSeparators_editLine {words : List Text} (hplain : ∀ word ∈ words, IsPlain word) :
    KeepsSeparators (editLine words) := fun _ _ hlead hcells =>
  ⟨_, editLine_rowText hplain hlead hcells, sameSeparators_edit words hcells⟩

/-- The white space of a row. -/
theorem filter_rowText {lead : Text} {cells : List (Cell Char)}
    (hlead : ∀ c ∈ lead, isPerlSpace c = true) (hcells : IsCells isPerlSpace cells) :
    (rowText (lead, cells)).filter isPerlSpace = lead ++ (cells.map Prod.snd).flatten := by
  rw [rowText, List.filter_append, List.filter_eq_self.mpr hlead]
  refine congrArg (lead ++ ·) ?_
  induction cells with
  | nil => rfl
  | cons cell cells ih =>
      obtain ⟨-, hfield, hsep, -, hrest⟩ := hcells
      have hnone : cell.1.filter isPerlSpace = [] := List.filter_eq_nil_iff.mpr fun c hc => by
        simp [hfield c hc]
      rw [cellsText_cons, List.filter_append, hnone, List.nil_append, List.filter_append,
        List.filter_eq_self.mpr hsep, ih hrest, List.map_cons, List.flatten_cons]

/-- A newline at the end stays there. -/
theorem exists_newline {lead body : Text} {cells cells' : List (Cell Char)}
    (hcells : IsCells isPerlSpace cells) (hsame : SameSeparators cells cells')
    (h : rowText (lead, cells) = body ++ ['\n']) :
    ∃ body', rowText (lead, cells') = body' ++ ['\n'] := by
  have hseparators := hsame.separators
  rcases List.eq_nil_or_concat' cells with rfl | ⟨init, last, rfl⟩
  · rw [List.map_nil, List.map_eq_nil_iff] at hseparators
    exact ⟨body, by rw [hseparators, h]⟩
  · rw [List.map_append, List.map_eq_append_iff] at hseparators
    obtain ⟨init', back, rfl, -, hback⟩ := hseparators
    obtain ⟨last', rfl⟩ := List.length_eq_one_iff.mp (by simpa using congrArg List.length hback)
    have hlast : last'.2 = last.2 := by simpa using hback
    rcases List.eq_nil_or_concat' last.2 with hempty | ⟨front, c, hsep⟩
    · -- The line would end in a field.
      obtain ⟨hne, hfield⟩ := hcells.of_mem last (by simp)
      obtain ⟨front, c, hconcat⟩ := (List.eq_nil_or_concat' last.1).resolve_left hne
      have hend : (lead ++ (cellsText init ++ front)) ++ [c] = body ++ ['\n'] := by
        rw [← h]
        simp [rowText, hempty, hconcat]
      have hc : c = '\n' := List.singleton_inj.mp (List.append_inj' hend rfl).2
      have hspace := hfield c (by simp [hconcat])
      rw [hc] at hspace
      exact absurd hspace (by decide)
    · -- The newline is the last separator, which is kept.
      have hend : (lead ++ (cellsText init ++ (last.1 ++ front))) ++ [c] = body ++ ['\n'] := by
        rw [← h]
        simp [rowText, hsep]
      have hc : c = '\n' := List.singleton_inj.mp (List.append_inj' hend rfl).2
      exact ⟨lead ++ (cellsText init' ++ (last'.1 ++ front)), by simp [rowText, hlast, hsep, hc]⟩

/-- Lines that are changed without changing their white space are still lines. -/
theorem KeepsSeparators.lined {f : Text → Text} (hf : KeepsSeparators f) {ls : List Text}
    (h : Python.Lined ls) : Python.Lined (ls.map f) := by
  have hline : ∀ line : Text, (line ≠ [] → f line ≠ []) ∧
      (f line).filter isPerlSpace = line.filter isPerlSpace ∧
        ∀ body, line = body ++ ['\n'] → ∃ body', f line = body' ++ ['\n'] := by
    intro line
    obtain ⟨htext, hlead, hcells⟩ := rowText_row isPerlSpace line
    obtain ⟨cells', hf', hsame⟩ := hf _ _ hlead hcells
    change f (rowText (row isPerlSpace line)) = _ at hf'
    rw [htext] at hf'
    refine ⟨fun hne hnil => hne ?_, ?_, fun body hbody => ?_⟩
    · rw [hf', rowText, List.append_eq_nil_iff] at hnil
      have hcells' := hsame.separators
      rw [hsame.isCells.eq_nil hnil.2, List.map_nil, eq_comm, List.map_eq_nil_iff] at hcells'
      rw [← htext, rowText, hnil.1, hcells', cellsText_nil, List.append_nil]
    · rw [hf', filter_rowText hlead hsame.isCells, hsame.separators, ← filter_rowText hlead hcells]
      exact congrArg (List.filter isPerlSpace) htext
    · rw [hf']
      exact exists_newline hcells hsame (htext.trans hbody)
  have hnewline : ∀ {t t' : Text}, t'.filter isPerlSpace = t.filter isPerlSpace → '\n' ∉ t →
      '\n' ∉ t' := by
    intro t t' hfilter hnot hmem
    have hmem' : '\n' ∈ t'.filter isPerlSpace := List.mem_filter.mpr ⟨hmem, by decide⟩
    rw [hfilter] at hmem'
    exact hnot (List.mem_filter.mp hmem').1
  induction h with
  | nil => exact .nil
  | last hne hnot => exact .last ((hline _).1 hne) (hnewline (hline _).2.1 hnot)
  | @cons body rest hnot _ ih =>
      obtain ⟨-, hfilter, hend⟩ := hline (body ++ ['\n'])
      obtain ⟨body', hbody'⟩ := hend body rfl
      rw [List.map_cons, hbody']
      rw [hbody', List.filter_append, List.filter_append] at hfilter
      exact .cons (hnewline (List.append_cancel_right hfilter) hnot) ih

/-- The lines of the edited file are the edited lines. -/
theorem lines_editFstab {words : List Text} (hplain : ∀ word ∈ words, IsPlain word)
    (content : Text) :
    Python.lines (editFstab words content) = (Python.lines content).map (editLine words) :=
  Python.lines_flatten ((keepsSeparators_editLine hplain).lined (Python.lines_spec content).2)

end MetaSecurity.Signing
