import MetaSecurity.Signing.Rerun

/-!
# Which fields are edited

The edit is meant for the options of the listed mount points: the fourth field of the lines whose
second field is one of them. `columns_iff` says for which files it is nothing else. The pattern is
not tied to the beginning of the line, so that it also matches in comments and further to the right.
-/

namespace MetaSecurity.Signing

open Library Shell

/-! ## The intended edit -/

/-- A line that is no comment, has at least four fields and a listed mount point in the second
one. -/
def isSelected (mountPoints : List Text) : List (Cell Char) → Bool
  | first :: point :: _ :: _ :: _ => first.1.head? ≠ some '#' && mountPoints.contains point.1
  | _ => false

/-- The option appended to the fourth field of the line, if it is meant to be. -/
def intendedCells (mountPoints : List Text) (cells : List (Cell Char)) : List (Cell Char) :=
  if isSelected mountPoints cells then cells.modify 3 withIversion else cells

/-- The line with all its white space. -/
def intendedLine (mountPoints : List Text) (line : Text) : Text :=
  rowText ((row isPerlSpace line).1, intendedCells mountPoints (row isPerlSpace line).2)

/-- The intended file. -/
def intendedFstab (mountPoints : List Text) (content : Text) : Text :=
  ((Python.lines content).map (intendedLine mountPoints)).flatten

/-- A successful run of the step leaves the intended file behind. -/
def EditsAsIntended (c : Config) (tools : Tools) (rootfs : Rootfs) : Prop :=
  ∀ file after, rootfs fstab = some file → fixFstab c tools rootfs = .done after →
    (after fstab).map File.content =
      some (intendedFstab (Python.words c.imaEvmRootfsIversion) file.content)

/-! ## Fields and repetitions -/

/-- The option is repeated where it stands for the first time. -/
def Repeats (t : Text) : Prop :=
  ∃ front rest, ¬ iversion <:+: front ∧ t = front ++ (iversion ++ (iversion ++ rest))

/-- The first field that contains the option does not repeat it. -/
def NoRepetition (cells : List (Cell Char)) : Prop :=
  ∀ before cell after, cells = before ++ cell :: after → Unmarked before → ¬ Repeats cell.1

theorem length_iversion_pos : 0 < iversion.length :=
  List.length_pos_iff.mpr iversion_ne_nil

theorem FirstRun.length_eq {t front rest : Text} {k : Nat} (h : FirstRun t front k rest) :
    t.length = (collapseIversion t).length + k * iversion.length := by
  have hcopies : (List.replicate (k + 1) iversion).flatten.length =
      k * iversion.length + iversion.length := by
    rw [← Nat.succ_mul]
    simp
  calc t.length = front.length + ((k * iversion.length + iversion.length) + rest.length) := by
        rw [h.eq, List.length_append, List.length_append, hcopies]
    _ = (front ++ (iversion ++ rest)).length + k * iversion.length := by
        rw [List.length_append, List.length_append]
        omega
    _ = (collapseIversion t).length + k * iversion.length := by rw [h.collapse_eq]

/-- A field becomes shorter or stays as it is. -/
theorem length_collapseIversion_le (t : Text) : (collapseIversion t).length ≤ t.length := by
  by_cases hpresent : iversion <:+: t
  · obtain ⟨front, k, rest, hrun⟩ := exists_firstRun hpresent
    have hlength := hrun.length_eq
    omega
  · rw [collapseIversion_of_absent hpresent]

/-- A field without a repetition at the first place stays as it is. -/
theorem collapseIversion_eq_self_iff (t : Text) : collapseIversion t = t ↔ ¬ Repeats t := by
  constructor
  · rintro h ⟨front, rest, hfront, rfl⟩
    obtain ⟨k, rest', hcopies, hrest'⟩ := exists_copies iversion_ne_nil
      (List.prefix_append iversion (iversion ++ rest))
    have hrun : FirstRun (front ++ (iversion ++ (iversion ++ rest))) front k rest' :=
      ⟨by rw [hcopies], hfront, hrest'⟩
    have hlength := hrun.length_eq
    rw [h] at hlength
    have hzero : k = 0 := by
      -- What is removed would have no length, so the run is a single option.
      have hmul : k * iversion.length = 0 := by omega
      exact (Nat.mul_eq_zero.mp hmul).resolve_right length_iversion_pos.ne'
    rw [hzero, List.replicate_one, List.flatten_singleton, List.append_cancel_left_eq] at hcopies
    exact hrest' (hcopies ▸ List.prefix_append iversion rest)
  · intro hsingle
    by_cases hpresent : iversion <:+: t
    · obtain ⟨front, k, rest, hrun⟩ := exists_firstRun hpresent
      cases k with
      | zero =>
          rw [hrun.collapse_eq, hrun.eq]
          simp
      | succ k =>
          refine absurd ⟨front, (List.replicate k iversion).flatten ++ rest, hrun.before, ?_⟩
            hsingle
          rw [hrun.eq, List.replicate_succ, List.replicate_succ]
          simp
    · exact collapseIversion_of_absent hpresent

/-- The appended option is the one that is removed again. -/
theorem collapse_append_eq_self_iff (t : Text) :
    collapseIversion (t ++ iversion) = t ↔
      ∃ front, ¬ iversion <:+: front ∧ t = front ++ iversion := by
  constructor
  · intro h
    have hpos := length_iversion_pos
    by_cases hpresent : iversion <:+: t
    · obtain ⟨front, k, rest, hrun⟩ := exists_firstRun hpresent
      by_cases hrest : rest = []
      · subst hrest
        have hlong : FirstRun (t ++ iversion) front (k + 1) [] := by
          have hcopies : List.replicate (k + 1 + 1) iversion =
              List.replicate (k + 1) iversion ++ [iversion] := List.replicate_succ'
          refine ⟨?_, hrun.before, iversion_not_prefix_nil⟩
          rw [hrun.eq, hcopies, List.flatten_append]
          simp
        refine ⟨front, hrun.before, ?_⟩
        rw [← h, hlong.collapse_eq, List.append_nil]
      · have hfirst : FirstRun (t ++ iversion) front k (rest ++ iversion) := by
          refine ⟨by rw [hrun.eq]; simp, hrun.before, ?_⟩
          simpa using hrun.after_append hrest []
        rw [hfirst.collapse_eq, hrun.eq, List.replicate_succ, List.flatten_cons, List.append_assoc,
          List.append_cancel_left_eq, List.append_cancel_left_eq] at h
        cases k with
        | zero =>
            have hlength := congrArg List.length h
            simp only [List.length_append, List.replicate_zero, List.flatten_nil,
              List.nil_append] at hlength
            omega
        | succ k =>
            -- The rest would start with the option.
            rw [List.replicate_succ, List.flatten_cons, List.append_assoc] at h
            refine absurd ?_ (hrun.after_append hrest [])
            rw [List.append_nil, h]
            exact List.prefix_append iversion _
    · have hrun : FirstRun (t ++ iversion) t 0 [] := ⟨by simp, hpresent, iversion_not_prefix_nil⟩
      have hlength := congrArg List.length h
      rw [hrun.collapse_eq] at hlength
      simp only [List.length_append, List.length_nil] at hlength
      omega
  · rintro ⟨front, hfront, rfl⟩
    have hrun : FirstRun (front ++ iversion ++ iversion) front 1 [] :=
      ⟨by simp, hfront, iversion_not_prefix_nil⟩
    rw [hrun.collapse_eq, List.append_nil]

section

variable {words mountPoints : List Text} {cells before after : List (Cell Char)}
  {options : Cell Char}

/-- Without a repetition nothing is collapsed. -/
theorem collapseFirst_eq_self_iff : collapseFirst cells = cells ↔ NoRepetition cells := by
  constructor
  · rintro h before cell after rfl hbefore hrepeats
    obtain ⟨front, rest, hfront, heq⟩ := hrepeats
    have hpresent : iversion <:+: cell.1 := ⟨front, iversion ++ rest, by simp [heq]⟩
    rw [collapseFirst_append hbefore, collapseFirst_cons_of_present hpresent,
      List.append_cancel_left_eq, List.cons.injEq] at h
    exact (collapseIversion_eq_self_iff cell.1).mp (congrArg Prod.fst h.1)
      ⟨front, rest, hfront, heq⟩
  · intro hsingle
    by_cases hunmarked : Unmarked cells
    · exact collapseFirst_of_unmarked hunmarked
    · obtain ⟨before, cell, after, rfl, hbefore, hpresent⟩ := exists_of_not_unmarked hunmarked
      have hcell := (collapseIversion_eq_self_iff cell.1).mpr
        (hsingle before cell after rfl hbefore)
      rw [collapseFirst_append hbefore, collapseFirst_cons_of_present hpresent, hcell]

/-- No field becomes longer when a run is collapsed. -/
theorem collapseFirst_le (cells : List (Cell Char)) :
    List.Forall₂ (fun cell' cell => cell'.1.length ≤ cell.1.length)
      (collapseFirst cells) cells := by
  have hrefl : ∀ cells : List (Cell Char),
      List.Forall₂ (fun cell' cell => cell'.1.length ≤ cell.1.length) cells cells := fun cells =>
    List.forall₂_same.mpr fun _ _ => le_rfl
  induction cells with
  | nil => exact .nil
  | cons cell cells ih =>
      rw [collapseFirst]
      split
      · exact .cons (length_collapseIversion_le cell.1) (hrefl cells)
      · exact .cons le_rfl ih

/-- The cells of a line for which the edit is the intended one. A line that is not meant to be
edited has no match and no repetition, or the match is at a field that ends in the only option of
the line so far, so that the appended one is removed again. A line that is meant to be edited has
its first match at the beginning, and no repetition after it. -/
def ExactCells (words mountPoints : List Text) (cells : List (Cell Char)) : Prop :=
  (¬ Matches words cells ∧ isSelected mountPoints cells = false ∧ NoRepetition cells) ∨
    ∃ before options after, cells = before ++ options :: after ∧ FirstMatch words before ∧
      ((isSelected mountPoints cells = true ∧ before.length = 3 ∧
          NoRepetition (before ++ withIversion options :: after)) ∨
        (isSelected mountPoints cells = false ∧ Unmarked before ∧
          ∃ front, ¬ iversion <:+: front ∧ options.1 = front ++ iversion))

/-- A line for which the edit is the intended one. -/
def Exact (words mountPoints : List Text) (line : Text) : Prop :=
  ExactCells words mountPoints (row isPerlSpace line).2

theorem length_of_selected (h : isSelected mountPoints cells = true) : 3 < cells.length := by
  match cells, h with
  | _ :: _ :: _ :: _ :: cells, _ => simp

/-- Where the fourth field is not the one that is marked, a selected line is not edited as
intended. -/
theorem edit_ne_intended (h : isSelected mountPoints cells = true)
    (hmark : (mark words cells)[3]? = cells[3]?) :
    editCells words cells ≠ intendedCells mountPoints cells := by
  intro heq
  have hlength := length_of_selected h
  obtain ⟨hsize, hle⟩ := List.forall₂_iff_get.mp (collapseFirst_le (mark words cells))
  rw [List.getElem?_eq_getElem hlength, List.getElem?_eq_some_iff] at hmark
  obtain ⟨hmarkLength, hmarked⟩ := hmark
  have hthird := hle 3 (hsize ▸ hmarkLength) hmarkLength
  have hintended : (collapseFirst (mark words cells)).get ⟨3, hsize ▸ hmarkLength⟩ =
      withIversion cells[3] := by
    have heq' : collapseFirst (mark words cells) = cells.modify 3 withIversion := by
      rw [← editCells, heq, intendedCells, if_pos h]
    simp [heq']
  rw [hintended, List.get_eq_getElem, hmarked] at hthird
  have hpos := length_iversion_pos
  simp only [withIversion, List.length_append] at hthird
  omega

/-- A line in which the pattern does not match. -/
theorem exact_of_not_matches (h : ¬ Matches words cells) :
    editCells words cells = intendedCells mountPoints cells ↔
      isSelected mountPoints cells = false ∧ NoRepetition cells := by
  cases hselected : isSelected mountPoints cells with
  | true =>
      refine iff_of_false (edit_ne_intended hselected ?_) (by simp)
      rw [mark_of_not_matches h]
  | false =>
      rw [intendedCells, hselected, if_neg Bool.false_ne_true, edit_of_not_matches h,
        collapseFirst_eq_self_iff]
      simp

/-- A selected line in which the pattern matches. -/
theorem exact_of_selected (hfirst : FirstMatch words before)
    (h : isSelected mountPoints (before ++ options :: after) = true) :
    editCells words (before ++ options :: after) =
        intendedCells mountPoints (before ++ options :: after) ↔
      before.length = 3 ∧ NoRepetition (before ++ withIversion options :: after) := by
  by_cases hlength : before.length = 3
  · have hintended : intendedCells mountPoints (before ++ options :: after) =
        before ++ withIversion options :: after := by
      rw [intendedCells, if_pos h, ← hlength, List.modify_eq_take_drop, List.take_left,
        List.drop_left]
      rfl
    rw [hintended, editCells, mark_of_first hfirst, collapseFirst_eq_self_iff]
    simp [hlength]
  · refine iff_of_false (edit_ne_intended h ?_) fun hboth => hlength hboth.1
    rw [mark_of_first hfirst]
    rcases Nat.lt_or_gt_of_ne hlength with hless | hgreater
    · rw [List.getElem?_append_right (by omega), List.getElem?_append_right (by omega)]
      obtain ⟨n, hn⟩ : ∃ n, 3 - before.length = n + 1 := ⟨2 - before.length, by omega⟩
      rw [hn, List.getElem?_cons_succ, List.getElem?_cons_succ]
    · rw [List.getElem?_append_left hgreater, List.getElem?_append_left hgreater]

/-- A line that is not meant to be edited, in which the pattern matches. -/
theorem exact_of_not_selected (hfirst : FirstMatch words before)
    (h : isSelected mountPoints (before ++ options :: after) = false) :
    editCells words (before ++ options :: after) =
        intendedCells mountPoints (before ++ options :: after) ↔
      Unmarked before ∧ ∃ front, ¬ iversion <:+: front ∧ options.1 = front ++ iversion := by
  rw [intendedCells, h, if_neg Bool.false_ne_true]
  by_cases hunmarked : Unmarked before
  · rw [edit_of_unmarked hfirst hunmarked, List.append_cancel_left_eq, List.cons.injEq,
      ← collapse_append_eq_self_iff]
    simp [Prod.ext_iff, hunmarked]
  · exact iff_of_false (fun heq => hunmarked (unmarked_of_edit_eq hfirst heq))
      fun hboth => hunmarked hboth.1

/-- Which lines are edited as intended. -/
theorem edit_eq_intended_iff :
    editCells words cells = intendedCells mountPoints cells ↔
      ExactCells words mountPoints cells := by
  by_cases hmatches : Matches words cells
  · constructor
    · intro h
      obtain ⟨before, options, after, rfl, hfirst⟩ := exists_firstMatch hmatches
      refine .inr ⟨before, options, after, rfl, hfirst, ?_⟩
      cases hselected : isSelected mountPoints (before ++ options :: after) with
      | true => exact .inl ⟨rfl, (exact_of_selected hfirst hselected).mp h⟩
      | false => exact .inr ⟨rfl, (exact_of_not_selected hfirst hselected).mp h⟩
    · rintro (⟨hnone, -⟩ | ⟨before, options, after, rfl, hfirst, hexact⟩)
      · exact absurd hmatches hnone
      · rcases hexact with ⟨hselected, h⟩ | ⟨hselected, h⟩
        · exact (exact_of_selected hfirst hselected).mpr h
        · exact (exact_of_not_selected hfirst hselected).mpr h
  · rw [exact_of_not_matches hmatches]
    constructor
    · exact fun h => .inl ⟨hmatches, h⟩
    · rintro (⟨-, h⟩ | ⟨before, options, after, rfl, hfirst, -⟩)
      · exact h
      · exact absurd ⟨before, options, after, rfl, hfirst.opening⟩ hmatches

end

/-! ## The intended file -/

theorem sameSeparators_intended (mountPoints : List Text) {cells : List (Cell Char)}
    (h : IsCells isPerlSpace cells) : SameSeparators cells (intendedCells mountPoints cells) := by
  cases hselected : isSelected mountPoints cells with
  | true =>
      have hlength := length_of_selected hselected
      have hsplit : cells = cells.take 3 ++ cells[3] :: cells.drop 4 := by
        rw [← List.drop_eq_getElem_cons hlength, List.take_append_drop]
      rw [intendedCells, if_pos hselected, List.modify_eq_take_cons_drop hlength]
      conv_lhs => rw [hsplit]
      rw [hsplit] at h
      exact sameSeparators_set h (withIversion_field (h.of_mem cells[3] (by simp)))
  | false =>
      rw [intendedCells, if_neg (by simp [hselected])]
      exact ⟨h, rfl⟩

theorem intendedLine_rowText (mountPoints : List Text) {lead : Text} {cells : List (Cell Char)}
    (hlead : ∀ c ∈ lead, isPerlSpace c = true) (hcells : IsCells isPerlSpace cells) :
    intendedLine mountPoints (rowText (lead, cells)) =
      rowText (lead, intendedCells mountPoints cells) := by
  rw [intendedLine, row_rowText hlead hcells]

theorem keepsSeparators_intendedLine (mountPoints : List Text) :
    KeepsSeparators (intendedLine mountPoints) := fun _ _ hlead hcells =>
  ⟨_, intendedLine_rowText mountPoints hlead hcells, sameSeparators_intended mountPoints hcells⟩

/-- Which lines are edited as intended. -/
theorem editLine_eq_intended_iff {words : List Text} (hplain : ∀ word ∈ words, IsPlain word)
    (mountPoints : List Text) (line : Text) :
    editLine words line = intendedLine mountPoints line ↔ Exact words mountPoints line := by
  obtain ⟨-, hlead, hcells⟩ := rowText_row isPerlSpace line
  have hedited := (sameSeparators_edit words hcells).isCells
  have hintended := (sameSeparators_intended mountPoints hcells).isCells
  rw [editLine_row hplain line, intendedLine, rowText_inj hlead hedited hintended, Exact,
    edit_eq_intended_iff]

/-- Which files are edited as intended. -/
theorem editFstab_eq_intended_iff {words : List Text} (hplain : ∀ word ∈ words, IsPlain word)
    (mountPoints : List Text) (content : Text) :
    editFstab words content = intendedFstab mountPoints content ↔
      ∀ line ∈ Python.lines content, Exact words mountPoints line := by
  have hsame : editFstab words content = intendedFstab mountPoints content ↔
      (Python.lines content).map (editLine words) =
        (Python.lines content).map (intendedLine mountPoints) := by
    have hlined := (keepsSeparators_intendedLine mountPoints).lined (Python.lines_spec content).2
    refine ⟨fun h => ?_, fun h => ?_⟩
    · rw [← lines_editFstab hplain, h, intendedFstab, Python.lines_flatten hlined]
    · rw [editFstab, h, intendedFstab]
  rw [hsame, List.map_inj_left]
  exact forall₂_congr fun line _ => editLine_eq_intended_iff hplain mountPoints line

/-- For plain mount points the step does what is intended exactly on files of such lines. -/
theorem editsAsIntended_iff {c : Config} {tools : Tools} {words : List Text}
    (hlists : Lists c words) (hperl : RunsScript tools.perl) {rootfs : Rootfs} {file : File}
    (h : rootfs fstab = some file) : EditsAsIntended c tools rootfs ↔
      ∀ line ∈ Python.lines file.content,
        Exact words (Python.words c.imaEvmRootfsIversion) line := by
  rw [← editFstab_eq_intended_iff hlists.1]
  have hrun := fixFstab_eq hlists hperl h
  constructor
  · intro hedits
    have hcontent := hedits file _ h hrun
    rw [create_self, Option.map_some, Option.some.injEq] at hcontent
    exact hcontent
  · intro hcontent file' after hfile' hafter
    obtain rfl : file = file' := Option.some.inj (h.symm.trans hfile')
    rw [hrun, Outcome.done.injEq] at hafter
    rw [← hafter, create_self, Option.map_some, hcontent]

/-- The step appends the option to the fourth field of the lines of the listed mount points and
changes nothing else, whatever the tools, if and only if the variable lists plain mount points and
the file has only lines for which the edit is the intended one. -/
theorem columns_iff (c : Config) {rootfs : Rootfs} {file : File} (h : rootfs fstab = some file) :
    (∀ tools : Tools, RunsScript tools.perl → EditsAsIntended c tools rootfs) ↔
      ∃ words, Lists c words ∧ ∀ line ∈ Python.lines file.content,
        Exact words (Python.words c.imaEvmRootfsIversion) line := by
  constructor
  · intro hedits
    let other := fun content => 'x' :: intendedFstab (Python.words c.imaEvmRootfsIversion) content
    have htools := hedits (toolsWith (perlOr other)) (perlOr_runsScript other)
    by_cases hlists : ∃ words, Lists c words
    · obtain ⟨words, hlists⟩ := hlists
      exact ⟨words, hlists, (editsAsIntended_iff hlists (perlOr_runsScript other) h).mp htools⟩
    · have hperl := perlOr_other (not_exists.mp hlists) other file.content
      have hrun : fixFstab c (toolsWith (perlOr other)) rootfs =
          .done (create fstab (other file.content) rootfs) := by
        simp only [fixFstab, h, toolsWith, hperl]
      have hcontent := htools file _ h hrun
      rw [create_self, Option.map_some, Option.some.injEq] at hcontent
      exact absurd (congrArg List.length hcontent) (by simp [other])
  · rintro ⟨words, hlists, hexact⟩ tools hperl
    exact (editsAsIntended_iff hlists hperl h).mpr hexact

/-- The line of the root file system is edited as intended. -/
theorem columns_root : EditsAsIntended (mountConfig ['/']) (toolsWith (perlOr id))
    (fstabRootfs (rootLine "defaults".toList)) := by
  have hexact : ∀ line ∈ Python.lines (rootLine "defaults".toList),
      Exact [['/']] (Python.words (mountConfig ['/']).imaEvmRootfsIversion) line := by
    rw [lines_rootLine (by decide), List.forall_mem_singleton, words_root,
      ← editLine_eq_intended_iff mountConfig_root.1]
    decide
  exact (columns_iff (mountConfig ['/']) (fstabRootfs_fstab _)).mpr
    ⟨[['/']], mountConfig_root, hexact⟩ (toolsWith (perlOr id)) (perlOr_runsScript id)

/-- A comment that shows such a line. -/
def commentLine : Text := "# /dev/sda1 / ext4 defaults 0 1".toList ++ ['\n']

theorem lines_commentLine : Python.lines commentLine = [commentLine] :=
  lines_line (by decide)

/-- The comment is edited. -/
theorem comment_edited : ¬ ∀ tools : Tools, RunsScript tools.perl →
    EditsAsIntended (mountConfig ['/']) tools (fstabRootfs commentLine) := by
  intro hedits
  have hperl := perlOr_runsScript id
  have hexact := (editsAsIntended_iff mountConfig_root hperl (fstabRootfs_fstab _)).mp
    (hedits (toolsWith (perlOr id)) hperl)
  rw [lines_commentLine, List.forall_mem_singleton, words_root,
    ← editLine_eq_intended_iff mountConfig_root.1] at hexact
  exact absurd hexact (by decide)

end MetaSecurity.Signing
