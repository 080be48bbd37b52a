import MetaSecurity.Library.Backtracking
import MetaSecurity.Library.Rows
import MetaSecurity.Signing.Rootfs

/-!
# The edit of /etc/fstab

The perl script of `ima_evm_sign_rootfs` runs two substitutions on every line: the first one appends
`,iversion` to the field two after a mount point, the second one replaces the first run of
`,iversion` by a single one. `editLine_rowText` says what becomes of the fields of a line.
-/

namespace MetaSecurity.Signing

open Library Shell

/-! ## The script -/

/-- The characters that `\s` matches. -/
def isPerlSpace (c : Char) : Bool :=
  [' ', '\t', '\n', '\x0b', '\x0c', '\r'].contains c

/-- The characters that `\S` matches. -/
def isPerlWord (c : Char) : Bool :=
  !isPerlSpace c

/-- The mount option, with the comma before it. -/
def iversion : Text := ",iversion".toList

/-- `(A|B|…)`, which matches the empty text when there is no alternative. -/
def alternatives (words : List Text) : List Text :=
  if words = [] then [[]] else words

/-- `(\S+)(\s+)(A|B|…)(\s+)(\S+)(\s+)(\S+)`. -/
def fstabPattern (words : List Text) : List (Piece Char) :=
  [oneOrMore isPerlWord, oneOrMore isPerlSpace, oneOf (alternatives words), oneOrMore isPerlSpace,
    oneOrMore isPerlWord, oneOrMore isPerlSpace, oneOrMore isPerlWord]

/-- `s;…;\1\2\3\4\5\6\7,iversion;`. -/
def appendIversion (words : List Text) : Text → Text :=
  substitute (fstabPattern words) fun groups => groups.flatten ++ iversion

/-- `s/(,iversion)+/,iversion/`. -/
def collapseIversion : Text → Text :=
  collapse iversion

/-- What the script makes of a line. -/
def editLine (words : List Text) (line : Text) : Text :=
  collapseIversion (appendIversion words line)

/-- What `perl -pi` makes of the file. -/
def editFstab (words : List Text) (content : Text) : Text :=
  ((Python.lines content).map (editLine words)).flatten

/-- The characters that mean something else in a pattern, in a `s;…;…;` of perl or between the
single quotes of a shell script. -/
def isSpecial (c : Char) : Bool :=
  "\\|()[\x7b^$*+?.;\x27@".toList.contains c

/-- A mount point that the pattern takes literally. -/
def IsPlain (word : Text) : Prop :=
  word ≠ [] ∧ ∀ c ∈ word, isSpecial c = false ∧ isPerlSpace c = false

/-- A `perl` that takes plain mount points literally. Nothing is said of others, which can change
the pattern or end it. -/
def RunsScript (perl : Text → Text → Option Text) : Prop :=
  ∀ words content, (∀ word ∈ words, IsPlain word) →
    perl (['|'].intercalate words) content = some (editFstab words content)

/-! ## The fields of a line -/

/-- The cell with the option appended to its field. -/
def withIversion (cell : Cell Char) : Cell Char :=
  (cell.1 ++ iversion, cell.2)

/-- How many cells stand before the options in a match. -/
def cellsBefore (words : List Text) : Nat :=
  if words = [] then 2 else 3

/-- The pattern finds what it looks for in the first two cells: a mount point in the second one or,
when there is no alternative, two white space characters between them. -/
def opens (words : List Text) : List (Cell Char) → Bool
  | first :: point :: _ => if words = [] then 2 ≤ first.2.length else words.contains point.1
  | _ => false

/-- The pattern matches at the first cell. -/
def matchesHere (words : List Text) (cells : List (Cell Char)) : Bool :=
  opens words cells && cellsBefore words < cells.length

/-- The first substitution on the cells of a line. -/
def mark (words : List Text) : List (Cell Char) → List (Cell Char)
  | [] => []
  | cell :: cells =>
      if matchesHere words (cell :: cells) then
        (cell :: cells).modify (cellsBefore words) withIversion
      else cell :: mark words cells

/-- The second substitution on the cells of a line. -/
def collapseFirst : List (Cell Char) → List (Cell Char)
  | [] => []
  | cell :: cells =>
      if iversion <:+: cell.1 then (collapseIversion cell.1, cell.2) :: cells
      else cell :: collapseFirst cells

/-- What the script makes of the cells of a line. -/
def editCells (words : List Text) (cells : List (Cell Char)) : List (Cell Char) :=
  collapseFirst (mark words cells)

/-! ## The first substitution -/

theorem isPerlWord_eq (c : Char) : isPerlWord c = true ↔ isPerlSpace c = false := by
  simp [isPerlWord]

section

variable {words : List Text} {pieces : List (Piece Char)} {cell : Cell Char}
  {cells : List (Cell Char)} {field rest : Text}

/-- A piece for a field takes the whole field. -/
theorem matched_field (hne : field ≠ []) (hfield : ∀ c ∈ field, isPerlSpace c = false)
    (hrest : ∀ c ∈ rest.head?, isPerlSpace c = true)  :
    matched (oneOrMore isPerlWord :: oneOrMore isPerlSpace :: pieces) (field ++ rest) =
      following field (matched (oneOrMore isPerlSpace :: pieces) rest) := by
  refine matched_oneOrMore hne (fun c hc => (isPerlWord_eq c).mpr (hfield c hc))
    (fun c hc => by simp [isPerlWord, hrest c hc]) fun c t hc => ?_
  refine matched_oneOrMore_eq_none pieces fun d hd => ?_
  rw [List.head?_cons, Option.mem_some_iff] at hd
  exact hd ▸ (isPerlWord_eq c).mp hc

/-- A piece for white space takes all of it. -/
theorem matched_separator (hcells : IsCells isPerlSpace (cell :: cells))
    (hnil : matched pieces [] = none)
    (hnext : ∀ c t, isPerlSpace c = true → matched pieces (c :: t) = none) :
    matched (oneOrMore isPerlSpace :: pieces) (cell.2 ++ cellsText cells) =
      following cell.2 (matched pieces (cellsText cells)) := by
  obtain ⟨-, -, hsep, hbetween, hrest⟩ := hcells
  by_cases hempty : cell.2 = []
  · have hcells : cells = [] := by
      by_contra hne
      exact hbetween hne hempty
    rw [hempty, hcells, cellsText_nil, List.append_nil, hnil]
    exact matched_oneOrMore_eq_none pieces (by simp)
  · exact matched_oneOrMore hempty hsep hrest.head hnext

theorem matched_word_nil (pieces : List (Piece Char)) :
    matched (oneOrMore isPerlWord :: pieces) [] = none :=
  matched_oneOrMore_eq_none pieces (by simp)

theorem matched_word_space (pieces : List (Piece Char)) (c : Char) (t : Text)
    (h : isPerlSpace c = true) : matched (oneOrMore isPerlWord :: pieces) (c :: t) = none :=
  matched_oneOrMore_eq_none pieces (by simp [isPerlWord, h])

/-- The last field of the pattern. -/
theorem matched_options (hcells : IsCells isPerlSpace (cell :: cells)) :
    matched [oneOrMore isPerlWord] (cellsText (cell :: cells)) =
      some (cell.1, cell.2 ++ cellsText cells) := by
  have hafter := hcells.head_after
  obtain ⟨hne, hfield, -⟩ := hcells
  rw [cellsText_cons]
  exact matched_oneOrMore_last hne (fun c hc => (isPerlWord_eq c).mpr (hfield c hc))
    fun c hc => by simp [isPerlWord, hafter c hc]

/-- Two fields and the white space between them, and the rest. -/
def pairOf : List (Cell Char) → Option (Text × Text)
  | third :: options :: after =>
      some (third.1 ++ (third.2 ++ options.1), options.2 ++ cellsText after)
  | _ => none

/-- The last three pieces. -/
theorem matched_pair (hcells : IsCells isPerlSpace cells) :
    matched [oneOrMore isPerlWord, oneOrMore isPerlSpace, oneOrMore isPerlWord] (cellsText cells) =
      pairOf cells := by
  cases cells with
  | nil => exact matched_word_nil _
  | cons third cells =>
      rw [cellsText_cons, matched_field hcells.1 hcells.2.1 hcells.head_after,
        matched_separator hcells (matched_word_nil _) (matched_word_space _)]
      cases cells with
      | nil =>
          rw [cellsText_nil, matched_word_nil]
          rfl
      | cons options after =>
          rw [matched_options hcells.2.2.2.2]
          rfl

/-- Plain words do not match at the end of a line or at white space. -/
theorem matched_point_eq_none (hplain : ∀ word ∈ words, IsPlain word) (hne : words ≠ []) {t : Text}
    (ht : ∀ c ∈ t.head?, isPerlSpace c = true) :
    matched (oneOf (alternatives words) :: pieces) t = none := by
  rw [alternatives, if_neg hne]
  cases t with
  | nil =>
      rw [matched_oneOf, List.findSome?_eq_none_iff]
      exact fun word hword => if_neg fun h => (hplain word hword).1 (List.prefix_nil.mp h)
  | cons c t =>
      refine matched_oneOf_eq_none pieces t fun word hword =>
        ⟨(hplain word hword).1, fun hmem => ?_⟩
      have hspace := ht c rfl
      rw [((hplain word hword).2 c hmem).2] at hspace
      cases hspace

/-- Plain words match a whole field. -/
theorem matched_point (hplain : ∀ word ∈ words, IsPlain word) (hne : words ≠ [])
    (hcells : IsCells isPerlSpace (cell :: cells)) :
    matched (oneOf (alternatives words) :: oneOrMore isPerlSpace :: oneOrMore isPerlWord :: pieces)
        (cellsText (cell :: cells)) =
      if cell.1 ∈ words then following (cell.1 ++ cell.2)
        (matched (oneOrMore isPerlWord :: pieces) (cellsText cells))
      else none := by
  have hwords : ∀ word ∈ words, ∀ c ∈ word, isPerlSpace c = false := fun word hword c hc =>
    ((hplain word hword).2 c hc).2
  rw [alternatives, if_neg hne, cellsText_cons,
    matched_oneOf_field _ hwords hcells.2.1 hcells.head_after,
    matched_separator hcells (matched_word_nil _) (matched_word_space _), following_append]

/-- The first four pieces without words: white space is divided between the pieces around the empty
alternative. -/
theorem matched_opening_nil (hcells : IsCells isPerlSpace (cell :: cells)) (hne : field ≠ [])
    (hfield : ∀ c ∈ field, isPerlSpace c = false) :
    matched (fstabPattern []) (field ++ (cell.2 ++ cellsText cells)) =
      if opens [] (cell :: cells) then
        following (field ++ cell.2 ++ cellsText (cells.take (cellsBefore [] - 2)))
          (pairOf (cells.drop (cellsBefore [] - 2)))
      else none := by
  have hskip : matched (oneOrMore isPerlSpace :: oneOf [[]] :: oneOrMore isPerlSpace ::
      [oneOrMore isPerlWord, oneOrMore isPerlSpace, oneOrMore isPerlWord])
        (cell.2 ++ cellsText cells) =
      matched (oneOrMore isPerlSpace :: oneOrMore isPerlSpace ::
        [oneOrMore isPerlWord, oneOrMore isPerlSpace, oneOrMore isPerlWord])
          (cell.2 ++ cellsText cells) := by
    rw [matched_cons, matched_cons]
    simp only [matched_oneOf_nil]
  rw [fstabPattern, matched_field hne hfield hcells.head_after, alternatives, if_pos rfl, hskip]
  cases cells with
  | nil =>
      have hopens : opens [] [cell] = false := rfl
      rw [hopens, if_neg Bool.false_ne_true]
      by_cases hempty : cell.2 = []
      · rw [hempty, cellsText_nil, List.append_nil, matched_oneOrMore_eq_none _ (by simp)]
        rfl
      · rw [matched_oneOrMore_twice hempty hcells.2.2.1 (by simp) (matched_word_space _),
          cellsText_nil, matched_word_nil, following_none, ite_self]
        rfl
  | cons point cells =>
      have hopens : opens [] (cell :: point :: cells) = decide (2 ≤ cell.2.length) := rfl
      rw [matched_oneOrMore_twice (hcells.2.2.2.1 (List.cons_ne_nil point cells)) hcells.2.2.1
        hcells.2.2.2.2.head (matched_word_space _), hopens]
      by_cases hlength : 2 ≤ cell.2.length
      · rw [if_pos hlength, if_pos (decide_eq_true hlength), following_append,
          matched_pair hcells.2.2.2.2]
        simp [cellsBefore]
      · rw [if_neg hlength, if_neg (by simpa using hlength)]
        rfl

/-- The first four pieces: where the pattern opens, and where it goes on. -/
theorem matched_opening (hplain : ∀ word ∈ words, IsPlain word)
    (hcells : IsCells isPerlSpace (cell :: cells)) (hne : field ≠ [])
    (hfield : ∀ c ∈ field, isPerlSpace c = false) :
    matched (fstabPattern words) (field ++ (cell.2 ++ cellsText cells)) =
      if opens words (cell :: cells) then
        following (field ++ cell.2 ++ cellsText (cells.take (cellsBefore words - 2)))
          (pairOf (cells.drop (cellsBefore words - 2)))
      else none := by
  by_cases hwords : words = []
  · subst hwords
    exact matched_opening_nil hcells hne hfield
  · rw [fstabPattern, matched_field hne hfield hcells.head_after,
      matched_separator hcells (matched_point_eq_none hplain hwords (by simp))
        fun c t hc => matched_point_eq_none hplain hwords (by simpa using hc)]
    cases cells with
    | nil =>
        rw [cellsText_nil, matched_point_eq_none hplain hwords (by simp)]
        rfl
    | cons point cells =>
        rw [matched_point hplain hwords hcells.2.2.2.2, matched_pair hcells.2.2.2.2.2.2.2.2]
        by_cases hpoint : point.1 ∈ words
        · simp [opens, cellsBefore, hwords, hpoint, following_append]
        · simp [opens, hwords, hpoint]

/-- No match begins within a field where the pattern does not match from its beginning on. -/
theorem matched_of_not_here (hplain : ∀ word ∈ words, IsPlain word)
    (hcells : IsCells isPerlSpace (cell :: cells)) (h : matchesHere words (cell :: cells) = false)
    (hne : field ≠ []) (hfield : ∀ c ∈ field, isPerlSpace c = false) :
    matched (fstabPattern words) (field ++ (cell.2 ++ cellsText cells)) = none := by
  rw [matched_opening hplain hcells hne hfield]
  cases hopens : opens words (cell :: cells) with
  | false => rfl
  | true =>
      rw [matchesHere, hopens, Bool.true_and, decide_eq_false_iff_not, List.length_cons] at h
      have hshort : (cells.drop (cellsBefore words - 2)).length < 2 := by
        have htwo : 2 ≤ cellsBefore words := by
          unfold cellsBefore
          split <;> omega
        rw [List.length_drop]
        omega
      rw [if_pos rfl]
      match cells.drop (cellsBefore words - 2), hshort with
      | [], _ => rfl
      | [third], _ => rfl

/-- A match, with the option appended to it. -/
theorem matched_of_here (hplain : ∀ word ∈ words, IsPlain word)
    (hcells : IsCells isPerlSpace (cell :: cells)) (h : matchesHere words (cell :: cells) = true) :
    ∃ front rest, matched (fstabPattern words) (cellsText (cell :: cells)) = some (front, rest) ∧
      front ++ iversion ++ rest =
        cellsText ((cell :: cells).modify (cellsBefore words) withIversion) := by
  rw [matchesHere, Bool.and_eq_true, decide_eq_true_eq] at h
  rw [cellsText_cons, matched_opening hplain hcells hcells.1 hcells.2.1, if_pos h.1]
  by_cases hwords : words = []
  · have hbefore : cellsBefore words = 2 := if_pos hwords
    rw [hbefore] at h ⊢
    match cells, h.2 with
    | third :: options :: after, _ =>
        exact ⟨_, _, rfl, by simp [withIversion]⟩
  · have hbefore : cellsBefore words = 3 := if_neg hwords
    rw [hbefore] at h ⊢
    match cells, h.2 with
    | point :: third :: options :: after, _ =>
        exact ⟨_, _, rfl, by simp [withIversion]⟩

/-- The first substitution works on the cells. -/
theorem appendIversion_rowText (hplain : ∀ word ∈ words, IsPlain word) {lead : Text}
    (hlead : ∀ c ∈ lead, isPerlSpace c = true) (hcells : IsCells isPerlSpace cells) :
    appendIversion words (rowText (lead, cells)) = rowText (lead, mark words cells) := by
  -- The pattern begins with a word, so no match begins at white space.
  have hspace : ∀ {t : Text} (rest : Text), (∀ c ∈ t, isPerlSpace c = true) →
      appendIversion words (t ++ rest) = t ++ appendIversion words rest := by
    intro t rest ht
    refine substitute_append _ fun front back hsplit hback => ?_
    obtain ⟨c, back, rfl⟩ := List.exists_cons_of_ne_nil hback
    exact matched_word_space _ c _ (ht c (by simp [hsplit]))
  rw [rowText, hspace _ hlead, rowText]
  refine congrArg (lead ++ ·) ?_
  induction cells with
  | nil => exact substitute_nil _ (matched_word_nil _)
  | cons cell cells ih =>
      rw [mark]
      cases hhere : matchesHere words (cell :: cells) with
      | true =>
          obtain ⟨front, rest, hmatched, htext⟩ := matched_of_here hplain hcells hhere
          rw [if_pos rfl, ← htext]
          exact substitute_of_matched hmatched (· ++ iversion)
      | false =>
          have hfield : appendIversion words (cell.1 ++ (cell.2 ++ cellsText cells)) =
              cell.1 ++ appendIversion words (cell.2 ++ cellsText cells) := by
            refine substitute_append _ fun front back hsplit hback => ?_
            exact matched_of_not_here hplain hcells hhere hback fun c hc =>
              hcells.2.1 c (by simp [hsplit, hc])
          rw [if_neg Bool.false_ne_true, cellsText_cons, cellsText_cons, hfield,
            hspace _ hcells.2.2.1, ih hcells.2.2.2.2]

end

end MetaSecurity.Signing
