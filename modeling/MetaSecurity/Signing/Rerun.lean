import MetaSecurity.Signing.Coverage
import MetaSecurity.Signing.EditedLines

/-!
# Running the edit again

`ima_evm_sign_rootfs` can run again for the same root file system, and its second substitution is
meant to remove the `,iversion` that the first one then appends again. `rerun_iff` says for which
files and mount points it does: the substitution removes the first repetition of the line, which
need not be the one at the end of the options.
-/

namespace MetaSecurity.Signing

open Library Shell

/-! ## Lines that are edited once -/

/-- The option stands nowhere in the field, or only in a run at its end. -/
def EndsInRun (t : Text) : Prop :=
  ∃ front k, ¬ iversion <:+: front ∧ t = front ++ (List.replicate k iversion).flatten

/-- The cells of a line that a second run leaves as the first one did. Either the pattern does not
match, and does not match when the first run of options is collapsed; or it matches, no field before
the options contains `,iversion` and they contain it only at their end; or a field before the
options does, and once its run is collapsed the pattern does not match any more. -/
def StableCells (words : List Text) (cells : List (Cell Char)) : Prop :=
  (¬ Matches words cells ∧ ¬ Matches words (collapseFirst cells)) ∨
    ∃ before options after, cells = before ++ options :: after ∧ FirstMatch words before ∧
      ((Unmarked before ∧ EndsInRun options.1) ∨
        (¬ Unmarked before ∧
          ¬ Matches words (collapseFirst before ++ withIversion options :: after)))

/-- A line that a second run leaves as the first one did. -/
def Stable (words : List Text) (line : Text) : Prop :=
  StableCells words (row isPerlSpace line).2

/-- Removing a repetition makes the field end in the option again only if it ended so. -/
theorem collapse_again_iff (t : Text) :
    collapseIversion (collapseIversion (t ++ iversion) ++ iversion) =
      collapseIversion (t ++ iversion) ↔ EndsInRun t := by
  constructor
  · intro h
    by_cases hpresent : iversion <:+: t
    · obtain ⟨front, k, rest, hrun⟩ := exists_firstRun hpresent
      by_cases hrest : rest = []
      · refine ⟨front, k + 1, hrun.before, ?_⟩
        rw [hrun.eq, hrest, List.append_nil]
      · -- The first run is not the one that was appended, and stays.
        have hafter := hrun.after_append hrest
        have hfirst : FirstRun (t ++ iversion) front k (rest ++ iversion) := by
          refine ⟨by rw [hrun.eq]; simp, hrun.before, ?_⟩
          simpa using hafter []
        have hsecond : FirstRun (front ++ (iversion ++ (rest ++ iversion)) ++ iversion) front 0
            (rest ++ (iversion ++ iversion)) :=
          ⟨by simp, hrun.before, hafter iversion⟩
        -- Then the second run appends one option and removes none.
        rw [hfirst.collapse_eq, hsecond.collapse_eq] at h
        have hlength := congrArg List.length h
        simp only [List.length_append] at hlength
        have hpos := List.length_pos_iff.mpr iversion_ne_nil
        omega
    · exact ⟨t, 0, hpresent, by simp⟩
  · rintro ⟨front, k, hfront, rfl⟩
    have hfirst :
        FirstRun (front ++ (List.replicate k iversion).flatten ++ iversion) front k [] := by
      refine ⟨?_, hfront, iversion_not_prefix_nil⟩
      rw [List.replicate_succ', List.flatten_append]
      simp
    have hsecond : FirstRun (front ++ (iversion ++ []) ++ iversion) front 1 [] :=
      ⟨by simp, hfront, iversion_not_prefix_nil⟩
    rw [hfirst.collapse_eq, hsecond.collapse_eq]

section

variable {words : List Text} {cells before after : List (Cell Char)} {options : Cell Char}

/-- What is before the first field with the option stays. -/
theorem exists_of_collapseFirst_eq (h : collapseFirst cells = before ++ options :: after)
    (hbefore : Unmarked before) : ∃ options' after', cells = before ++ options' :: after' := by
  induction before generalizing cells with
  | nil =>
      cases cells with
      | nil => cases h
      | cons cell cells => exact ⟨cell, cells, rfl⟩
  | cons first before ih =>
      cases cells with
      | nil => cases h
      | cons cell cells =>
          rw [collapseFirst, List.cons_append] at h
          split at h
          · next hpresent =>
            obtain ⟨front, k, rest, hrun⟩ := exists_firstRun hpresent
            refine absurd ?_ (hbefore first List.mem_cons_self)
            rw [← (List.cons.inj h).1, hrun.collapse_eq]
            exact ⟨front, rest, List.append_assoc _ _ _⟩
          · obtain ⟨heq, htail⟩ := List.cons.inj h
            obtain ⟨options', after', rfl⟩ :=
              ih htail fun other hother => hbefore other (List.mem_cons_of_mem first hother)
            exact ⟨options', after', by rw [heq, List.cons_append]⟩

theorem length_collapseFirst (cells : List (Cell Char)) :
    (collapseFirst cells).length = cells.length := by
  induction cells with
  | nil => rfl
  | cons cell cells ih =>
      rw [collapseFirst]
      split
      · rfl
      · rw [List.length_cons, ih, List.length_cons]

/-- Collapsing twice is collapsing once. -/
theorem collapseFirst_collapseFirst (cells : List (Cell Char)) :
    collapseFirst (collapseFirst cells) = collapseFirst cells := by
  by_cases hunmarked : Unmarked cells
  · rw [collapseFirst_of_unmarked hunmarked, collapseFirst_of_unmarked hunmarked]
  · obtain ⟨before, cell, after, rfl, hbefore, hpresent⟩ := exists_of_not_unmarked hunmarked
    obtain ⟨front, k, rest, hrun⟩ := exists_firstRun hpresent
    have hsingle : FirstRun (collapseIversion cell.1) front 0 rest := by
      refine ⟨?_, hrun.before, hrun.after⟩
      rw [hrun.collapse_eq]
      simp
    rw [collapseFirst_append hbefore, collapseFirst_cons_of_present hpresent,
      collapseFirst_append hbefore, collapseFirst_cons_of_present hsingle.present,
      hsingle.collapse_eq, hrun.collapse_eq]

/-- An edited line that still matches has changed for good only if the option stands before the
options. -/
theorem unmarked_of_edit_eq (hfirst : FirstMatch words before)
    (h : editCells words (before ++ options :: after) = before ++ options :: after) :
    Unmarked before := by
  by_contra hmarked
  rw [edit_of_marked hfirst hmarked] at h
  have hoptions := (List.cons.inj (List.append_inj h (length_collapseFirst before)).2).1
  have hlength := congrArg (fun cell : Cell Char => cell.1.length) hoptions
  have hpos := List.length_pos_iff.mpr iversion_ne_nil
  simp only [withIversion, List.length_append] at hlength
  omega

/-- A line without a match. -/
theorem edit_again_of_not_matches (h : ¬ Matches words cells) :
    editCells words (editCells words cells) = editCells words cells ↔
      ¬ Matches words (collapseFirst cells) := by
  rw [edit_of_not_matches h]
  constructor
  · intro heq hmatches
    obtain ⟨before, options, after, hcells, hfirst⟩ := exists_firstMatch hmatches
    rw [hcells] at heq
    obtain ⟨options', after', rfl⟩ :=
      exists_of_collapseFirst_eq hcells (unmarked_of_edit_eq hfirst heq)
    exact h ⟨before, options', after', rfl, hfirst.opening⟩
  · intro hnone
    rw [edit_of_not_matches hnone, collapseFirst_collapseFirst]

/-- A line with a match after a field that contains the option. -/
theorem edit_again_of_marked (hfirst : FirstMatch words before) (hmarked : ¬ Unmarked before) :
    editCells words (editCells words (before ++ options :: after)) =
        editCells words (before ++ options :: after) ↔
      ¬ Matches words (collapseFirst before ++ withIversion options :: after) := by
  rw [edit_of_marked hfirst hmarked]
  constructor
  · intro heq hmatches
    obtain ⟨before', options', after', hcells, hfirst'⟩ := exists_firstMatch hmatches
    rw [hcells] at heq
    have hunmarked := unmarked_of_edit_eq hfirst' heq
    rw [← collapseFirst_append_of_not_unmarked hmarked] at hcells
    obtain ⟨options'', after'', hsplit⟩ := exists_of_collapseFirst_eq hcells hunmarked
    -- The new match would be before the field with the option, and be the first one.
    rcases List.append_eq_append_iff.mp hsplit with ⟨more, hbefore', -⟩ | ⟨more, hbefore, htail⟩
    · rw [hbefore', Unmarked.append_iff] at hunmarked
      exact hmarked hunmarked.1
    · cases more with
      | nil =>
          rw [List.append_nil] at hbefore
          exact hmarked (hbefore ▸ hunmarked)
      | cons cell more => exact hfirst.first ⟨before', cell, more, hbefore, hfirst'.opening⟩
  · intro hnone
    rw [edit_of_not_matches hnone, ← collapseFirst_append_of_not_unmarked hmarked,
      collapseFirst_collapseFirst]

/-- A line with a match before any field that contains the option. -/
theorem edit_again_of_unmarked (hfirst : FirstMatch words before) (hunmarked : Unmarked before) :
    editCells words (editCells words (before ++ options :: after)) =
        editCells words (before ++ options :: after) ↔ EndsInRun options.1 := by
  rw [edit_of_unmarked hfirst hunmarked options, edit_of_unmarked hfirst hunmarked,
    ← collapse_again_iff]
  simp

/-- Which lines a second run leaves as they are. -/
theorem edit_again_iff :
    editCells words (editCells words cells) = editCells words cells ↔ StableCells words cells := by
  by_cases hmatches : Matches words cells
  · constructor
    · intro h
      obtain ⟨before, options, after, rfl, hfirst⟩ := exists_firstMatch hmatches
      refine .inr ⟨before, options, after, rfl, hfirst, ?_⟩
      by_cases hunmarked : Unmarked before
      · exact .inl ⟨hunmarked, (edit_again_of_unmarked hfirst hunmarked).mp h⟩
      · exact .inr ⟨hunmarked, (edit_again_of_marked hfirst hunmarked).mp h⟩
    · rintro (⟨hnone, -⟩ | ⟨before, options, after, rfl, hfirst, hstable⟩)
      · exact absurd hmatches hnone
      · rcases hstable with ⟨hunmarked, hends⟩ | ⟨hmarked, hnone⟩
        · exact (edit_again_of_unmarked hfirst hunmarked).mpr hends
        · exact (edit_again_of_marked hfirst hmarked).mpr hnone
  · rw [edit_again_of_not_matches hmatches]
    constructor
    · exact fun hnone => .inl ⟨hmatches, hnone⟩
    · rintro (⟨-, hnone⟩ | ⟨before, options, after, rfl, hfirst, -⟩)
      · exact hnone
      · exact absurd ⟨before, options, after, rfl, hfirst.opening⟩ hmatches

end

/-- Which lines the script leaves alone when it runs again. -/
theorem editLine_again_iff {words : List Text} (hplain : ∀ word ∈ words, IsPlain word)
    (line : Text) : editLine words (editLine words line) = editLine words line ↔
      Stable words line := by
  obtain ⟨-, hlead, hcells⟩ := rowText_row isPerlSpace line
  have honce := (sameSeparators_edit words hcells).isCells
  have htwice := (sameSeparators_edit words honce).isCells
  rw [editLine_row hplain line, editLine_rowText hplain hlead honce, rowText_inj hlead htwice honce,
    Stable, edit_again_iff]

/-- Which files the script leaves alone when it runs again. -/
theorem editFstab_again_iff {words : List Text} (hplain : ∀ word ∈ words, IsPlain word)
    (content : Text) : editFstab words (editFstab words content) = editFstab words content ↔
      ∀ line ∈ Python.lines content, Stable words line := by
  have hsame : editFstab words (editFstab words content) = editFstab words content ↔
      ((Python.lines content).map (editLine words)).map (editLine words) =
        (Python.lines content).map (editLine words) := by
    rw [← lines_editFstab hplain, ← lines_editFstab hplain]
    refine ⟨congrArg Python.lines, fun h => ?_⟩
    rw [← (Python.lines_spec (editFstab words (editFstab words content))).1, h,
      (Python.lines_spec (editFstab words content)).1]
  rw [hsame, List.map_map, List.map_inj_left]
  exact forall₂_congr fun line _ => editLine_again_iff hplain line

/-! ## Runs of the step -/

/-- The number of `iversion` options in a field. -/
def iversionOptions (field : Text) : Nat :=
  (field.splitOn ',').count "iversion".toList

/-- The number of `iversion` options in a column of a line of the file. -/
def iversionOptionsAt (content : Text) (line column : Nat) : Nat :=
  iversionOptions ((fields isPerlSpace ((Python.lines content).getD line [])).getD column [])

/-- Running the step again does not change the file, and however often it runs again no list of
options gets a second `iversion` from it. -/
structure Idempotent (c : Config) (tools : Tools) (rootfs : Rootfs) : Prop where
  same : ∀ once twice, fixFstab c tools rootfs = .done once →
    fixFstab c tools once = .done twice → twice fstab = once fstab
  single : ∀ n once later, fixFstab c tools rootfs = .done once →
    inOrder (List.replicate n (fixFstab c tools)) once = .done later →
      ∀ before after, once fstab = some before → later fstab = some after → ∀ line column,
        iversionOptionsAt after.content line column ≤
          max 1 (iversionOptionsAt before.content line column)

/-- The variable lists plain mount points: they are the alternatives of the pattern. -/
def Lists (c : Config) (words : List Text) : Prop :=
  (∀ word ∈ words, IsPlain word) ∧ c.mountPoints = ['|'].intercalate words

/-- What the step leaves behind. -/
theorem fixFstab_eq {c : Config} {tools : Tools} {words : List Text} (hlists : Lists c words)
    (hperl : RunsScript tools.perl) {rootfs : Rootfs} {file : File} (h : rootfs fstab = some file) :
    fixFstab c tools rootfs =
      .done (create fstab (editFstab words file.content) rootfs) := by
  simp only [fixFstab, h, hlists.2, hperl words file.content hlists.1]

theorem create_self (path : Path) (content : Text) (rootfs : Rootfs) :
    create path content rootfs path = some ⟨content, none⟩ :=
  Function.update_self path _ rootfs

/-- A step that does not change the contents can run any number of times. -/
theorem content_of_reruns {c : Config} {tools : Tools} {words : List Text}
    (hlists : Lists c words) (hperl : RunsScript tools.perl) {content : Text}
    (hfixed : editFstab words content = content) {n : Nat} {rootfs later : Rootfs} {file : File}
    (hfile : rootfs fstab = some file) (hcontent : file.content = content)
    (h : inOrder (List.replicate n (fixFstab c tools)) rootfs = .done later) :
    ∃ file', later fstab = some file' ∧ file'.content = content := by
  induction n generalizing rootfs file with
  | zero =>
      cases h
      exact ⟨file, hfile, hcontent⟩
  | succ n ih =>
      rw [List.replicate_succ, inOrder_cons_eq_done] at h
      obtain ⟨next, hnext, hlater⟩ := h
      rw [fixFstab_eq hlists hperl hfile, hcontent, hfixed, Outcome.done.injEq] at hnext
      subst hnext
      exact ih (create_self fstab content rootfs) rfl hlater

/-- For plain mount points the step is idempotent exactly on files of stable lines. -/
theorem idempotent_iff {c : Config} {tools : Tools} {words : List Text} (hlists : Lists c words)
    (hperl : RunsScript tools.perl) {rootfs : Rootfs} {file : File} (h : rootfs fstab = some file) :
    Idempotent c tools rootfs ↔ ∀ line ∈ Python.lines file.content, Stable words line := by
  rw [← editFstab_again_iff hlists.1]
  have honce := fixFstab_eq hlists hperl h
  have htwice := fixFstab_eq hlists hperl (create_self fstab (editFstab words file.content) rootfs)
  constructor
  · intro hidempotent
    have hsame := hidempotent.same _ _ honce htwice
    rw [create_self, create_self, Option.some.injEq, File.mk.injEq] at hsame
    exact hsame.1
  · intro hfixed
    refine ⟨fun once twice hrun hagain => ?_, fun n once later hrun hagain before after hbefore
      hafter line column => ?_⟩
    · rw [honce, Outcome.done.injEq] at hrun
      subst hrun
      rw [htwice, Outcome.done.injEq] at hagain
      rw [← hagain, create_self, create_self, hfixed]
    · rw [honce, Outcome.done.injEq] at hrun
      subst hrun
      obtain ⟨file', hfile', hcontent⟩ := content_of_reruns hlists hperl hfixed
        (create_self fstab (editFstab words file.content) rootfs) rfl hagain
      rw [create_self, Option.some.injEq] at hbefore
      obtain rfl : file' = after := Option.some.inj (hfile'.symm.trans hafter)
      rw [hcontent, ← hbefore]
      exact Nat.le_max_right _ _

/-! ## Every list of mount points -/

instance : DecidablePred IsPlain := fun _ => inferInstanceAs (Decidable (_ ∧ _))

/-- A `perl` that runs the script when the pattern is plain, and does something else when it is
not. -/
def perlOr (other : Text → Text) (pattern content : Text) : Option Text :=
  let words := if pattern = [] then [] else pattern.splitOn '|'
  some (if ∀ word ∈ words, IsPlain word then editFstab words content else other content)

theorem perlOr_runsScript (other : Text → Text) : RunsScript (perlOr other) := by
  intro words content hplain
  have hwords : (if ['|'].intercalate words = [] then []
      else (['|'].intercalate words).splitOn '|') = words := by
    cases words with
    | nil => rfl
    | cons word words =>
        have hbar : ∀ other ∈ word :: words, '|' ∉ other := fun other hother hmem =>
          absurd ((hplain other hother).2 _ hmem).1 (by decide)
        have hsplit := List.splitOn_intercalate '|' hbar (List.cons_ne_nil word words)
        have hne : ['|'].intercalate (word :: words) ≠ [] := fun hnil => by
          rw [hnil] at hsplit
          have hword : [] = word := (List.cons.inj hsplit).1
          exact (hplain word List.mem_cons_self).1 hword.symm
        rw [if_neg hne, hsplit]
  simp only [perlOr, hwords]
  rw [if_pos hplain]

/-- Where the variable is no list of plain mount points, nothing is known of the file. -/
theorem perlOr_other {c : Config} (h : ∀ words, ¬ Lists c words) (other : Text → Text)
    (content : Text) : perlOr other c.mountPoints content = some (other content) := by
  have hnot : ¬ ∀ word ∈ (if c.mountPoints = [] then [] else c.mountPoints.splitOn '|'),
      IsPlain word := by
    intro hplain
    refine h _ ⟨hplain, ?_⟩
    by_cases hnil : c.mountPoints = []
    · rw [if_pos hnil, hnil]
      rfl
    · rw [if_neg hnil, List.intercalate_splitOn]
  simp only [perlOr]
  rw [if_neg hnot]

/-- The tools of a build with the given `perl`. -/
def toolsWith (perl : Text → Text → Option Text) : Tools :=
  { plainTools with perl }

/-- The step is idempotent, whatever the tools, if and only if the variable lists plain mount points
and every line of the file is stable. -/
theorem rerun_iff (c : Config) {rootfs : Rootfs} {file : File} (h : rootfs fstab = some file) :
    (∀ tools : Tools, RunsScript tools.perl → Idempotent c tools rootfs) ↔
      ∃ words, Lists c words ∧ ∀ line ∈ Python.lines file.content, Stable words line := by
  constructor
  · intro hidempotent
    have htools := hidempotent (toolsWith (perlOr ('x' :: ·))) (perlOr_runsScript _)
    by_cases hlists : ∃ words, Lists c words
    · obtain ⟨words, hlists⟩ := hlists
      exact ⟨words, hlists, (idempotent_iff hlists (perlOr_runsScript _) h).mp htools⟩
    · have hrun : ∀ (rootfs : Rootfs) (file : File), rootfs fstab = some file →
          fixFstab c (toolsWith (perlOr ('x' :: ·))) rootfs =
            .done (create fstab ('x' :: file.content) rootfs) := by
        intro rootfs file hfile
        have hperl := perlOr_other (not_exists.mp hlists) ('x' :: ·) file.content
        simp only [fixFstab, hfile, toolsWith, hperl]
      have hsame := htools.same _ _ (hrun _ _ h) (hrun _ _ (create_self fstab _ rootfs))
      rw [create_self, create_self, Option.some.injEq, File.mk.injEq] at hsame
      exact absurd (congrArg List.length hsame.1) (by simp)
  · rintro ⟨words, hlists, hstable⟩ tools hperl
    exact (idempotent_iff hlists hperl h).mpr hstable

/-- A configuration with the given list of mount points. -/
def mountConfig (mountPoints : Text) : Config where
  sysconfdir := etc
  imaEvmPrivkey := "privkey_ima.pem".toList
  imaEvmX509 := "x509_ima.der".toList
  imaEvmRootfsIversion := mountPoints
  imaEvmPolicy := none
  imaFileSignaturesFile := none
  evmFileSignaturesFile := none

/-- A root file system with the given `/etc/fstab`. -/
def fstabRootfs (content : Text) : Rootfs := fun path =>
  if path = fstab then some ⟨content, none⟩ else none

theorem fstabRootfs_fstab (content : Text) : fstabRootfs content fstab = some ⟨content, none⟩ :=
  if_pos rfl

/-- The line of a root file system with the given options. -/
def rootLine (options : Text) : Text :=
  "/dev/sda1 / ext4 ".toList ++ options ++ " 0 1".toList ++ ['\n']

theorem words_root : Python.words (mountConfig ['/']).imaEvmRootfsIversion = [['/']] :=
  fields_eq_singleton (List.cons_ne_nil '/' []) (List.forall_mem_singleton.mpr (by decide))

/-- The root directory is a plain mount point. -/
theorem mountConfig_root : Lists (mountConfig ['/']) [['/']] :=
  ⟨List.forall_mem_singleton.mpr
      ⟨List.cons_ne_nil '/' [], List.forall_mem_singleton.mpr (by decide)⟩,
    congrArg ['|'].intercalate words_root⟩

theorem lines_line {body : Text} (h : '\n' ∉ body) :
    Python.lines (body ++ ['\n']) = [body ++ ['\n']] := by
  rw [Python.lines_append_cons h, Python.lines]

theorem lines_rootLine {options : Text} (h : '\n' ∉ options) :
    Python.lines (rootLine options) = [rootLine options] := by
  refine lines_line ?_
  simp only [List.mem_append, not_or]
  exact ⟨⟨by decide, h⟩, by decide⟩

/-- The default options can be edited again and again. -/
theorem rerun_defaults : Idempotent (mountConfig ['/']) (toolsWith (perlOr id))
    (fstabRootfs (rootLine "defaults".toList)) := by
  have hstable : ∀ line ∈ Python.lines (rootLine "defaults".toList), Stable [['/']] line := by
    rw [lines_rootLine (by decide), List.forall_mem_singleton,
      ← editLine_again_iff mountConfig_root.1]
    decide
  exact (rerun_iff (mountConfig ['/']) (fstabRootfs_fstab _)).mpr
    ⟨[['/']], mountConfig_root, hstable⟩ (toolsWith (perlOr id)) (perlOr_runsScript id)

/-- An option after `iversion` makes the list grow with every run. -/
theorem rerun_grows : ¬ ∀ tools : Tools, RunsScript tools.perl →
    Idempotent (mountConfig ['/']) tools
      (fstabRootfs (rootLine "rw,iversion,noatime".toList)) := by
  intro hidempotent
  have hperl := perlOr_runsScript id
  have hstable := (idempotent_iff mountConfig_root hperl (fstabRootfs_fstab _)).mp
    (hidempotent (toolsWith (perlOr id)) hperl)
  rw [lines_rootLine (by decide), List.forall_mem_singleton,
    ← editLine_again_iff mountConfig_root.1] at hstable
  exact absurd hstable (by decide)

end MetaSecurity.Signing
