import MetaSecurity.Questions.Rewriting

/-!
# One question at a time

What a single `add_requires` may touch, and what two of them do to the lines of one file. The block
of a question goes from the first label with its identifier to the next label; `add_requires` does
not look at where the block ends, and `touches_own_iff` says when that does no harm.
`addRequires_comm` says that two questions may be seen to in any order.
-/

namespace MetaSecurity.Questions

open Library Python

/-! ## The block of a question -/

/-- The line `i` stands in the question's block: behind the first label with the identifier, and
before any other label. -/
def InBlock (ident : Text) (lines : List Text) (i : Nat) : Prop :=
  ∃ before label between line after,
    lines = before ++ label :: (between ++ line :: after) ∧
    i = before.length + 1 + between.length ∧
    (∀ other ∈ before, labelOf other ≠ some ident) ∧ labelOf label = some ident ∧
    ∀ other ∈ between, isLabel other = false

/-- The line `i` stands before the first label. -/
def BeforeLabel (lines : List Text) (i : Nat) : Prop :=
  ∃ between line after, lines = between ++ line :: after ∧ i = between.length ∧
    ∀ other ∈ between, isLabel other = false

theorem beforeLabel_zero (line : Text) (rest : List Text) : BeforeLabel (line :: rest) 0 :=
  ⟨[], line, rest, rfl, rfl, by simp⟩

theorem beforeLabel_succ {line : Text} {rest : List Text} {i : Nat} :
    BeforeLabel (line :: rest) (i + 1) ↔ isLabel line = false ∧ BeforeLabel rest i := by
  constructor
  · rintro ⟨between, other, after, heq, hlength, hfree⟩
    cases between with
    | nil => cases hlength
    | cons first between =>
        rw [List.cons_append, List.cons.injEq] at heq
        rw [List.length_cons, Nat.add_right_cancel_iff] at hlength
        exact ⟨heq.1 ▸ hfree first List.mem_cons_self, between, other, after, heq.2, hlength,
          fun l hl => hfree l (List.mem_cons_of_mem _ hl)⟩
  · rintro ⟨hline, between, other, after, rfl, rfl, hfree⟩
    exact ⟨line :: between, other, after, rfl, rfl, List.forall_mem_cons.mpr ⟨hline, hfree⟩⟩

/-- Behind the label of the question, its block goes to the next label. -/
theorem inBlock_of_label {ident line : Text} {rest : List Text} {i : Nat}
    (h : labelOf line = some ident) :
    InBlock ident (line :: rest) (i + 1) ↔ BeforeLabel rest i := by
  constructor
  · rintro ⟨before, label, between, other, after, heq, hlength, hnot, -, hfree⟩
    cases before with
    | nil =>
        rw [List.nil_append, List.cons.injEq] at heq
        rw [List.length_nil] at hlength
        exact ⟨between, other, after, heq.2, by omega, hfree⟩
    | cons first before =>
        rw [List.cons_append, List.cons.injEq] at heq
        exact absurd (heq.1 ▸ h) (hnot first List.mem_cons_self)
  · rintro ⟨between, other, after, rfl, rfl, hfree⟩
    refine ⟨[], line, between, other, after, rfl, ?_, by simp, h, hfree⟩
    rw [List.length_nil]
    omega

/-- A line before the label of the question does not matter to its block. -/
theorem inBlock_of_not_label {ident line : Text} {rest : List Text} {i : Nat}
    (h : labelOf line ≠ some ident) :
    InBlock ident (line :: rest) (i + 1) ↔ InBlock ident rest i := by
  constructor
  · rintro ⟨before, label, between, other, after, heq, hlength, hnot, hlabel, hfree⟩
    cases before with
    | nil =>
        rw [List.nil_append, List.cons.injEq] at heq
        exact absurd (heq.1 ▸ hlabel) h
    | cons first before =>
        rw [List.cons_append, List.cons.injEq] at heq
        rw [List.length_cons] at hlength
        exact ⟨before, label, between, other, after, heq.2, by omega,
          fun l hl => hnot l (List.mem_cons_of_mem _ hl), hlabel, hfree⟩
  · rintro ⟨before, label, between, other, after, rfl, rfl, hnot, hlabel, hfree⟩
    refine ⟨line :: before, label, between, other, after, rfl, ?_,
      List.forall_mem_cons.mpr ⟨h, hnot⟩, hlabel, hfree⟩
    rw [List.length_cons]
    omega

/-- A list of distributions that stands in a block before the next label. -/
theorem blockRequire_iff {lines : List Text} {i : Nat}
    (h : lines.findIdx? isRequire = some i) :
    blockRequire lines = some i ↔ BeforeLabel lines i := by
  induction lines generalizing i with
  | nil => cases h
  | cons line rest ih =>
      rw [List.findIdx?_cons] at h
      rw [blockRequire]
      by_cases hrequire : isRequire line = true
      · rw [if_pos hrequire, Option.some.injEq] at h
        subst h
        rw [if_neg (by simp [isLabel_of_isRequire hrequire]), if_pos hrequire]
        exact ⟨fun _ => beforeLabel_zero line rest, fun _ => rfl⟩
      · rw [if_neg hrequire, Option.map_eq_some_iff] at h
        obtain ⟨j, hj, rfl⟩ := h
        rw [beforeLabel_succ, ← ih hj]
        by_cases hlabel : isLabel line = true
        · simp [hlabel]
        · simp [hlabel, hrequire]

/-- The first list of distributions after the label is the question's own exactly when it stands in
the block. -/
theorem inBlock_iff {ident : Text} {lines : List Text} {i : Nat}
    (h : requireAfter ident lines = some i) :
    InBlock ident lines i ↔ ownRequire ident lines = some i := by
  induction lines generalizing i with
  | nil => cases h
  | cons line rest ih =>
      rw [requireAfter] at h
      rw [ownRequire]
      by_cases hlabel : labelOf line = some ident
      · rw [if_pos hlabel, Option.map_eq_some_iff] at h
        obtain ⟨j, hj, rfl⟩ := h
        rw [inBlock_of_label hlabel, ← blockRequire_iff hj]
        simp [hlabel]
      · rw [if_neg hlabel, Option.map_eq_some_iff] at h
        obtain ⟨j, hj, rfl⟩ := h
        rw [inBlock_of_not_label hlabel, ih hj]
        simp [hlabel]

/-! ## Only the named question -/

/-- The lines `out` are the lines of the file, except possibly for one, a list of distributions in
the question's block that has the distribution instead of the white space at its end. -/
structure TouchesOwn (ident distro : Text) (lines out : List Text) : Prop where
  length : out.length = lines.length
  one : ∃ i : Nat, ∀ j, j ≠ i → out[j]? = lines[j]?
  own : ∀ (i : Nat) (line : Text), lines[i]? = some line → out[i]? ≠ some line →
    isRequire line = true ∧ InBlock ident lines i ∧ out[i]? = some (withDistro distro line)

/-- The list of distributions that `add_requires` comes to needs no change: it has the
distribution, or it ends as the change would make it end. -/
def UpToDate (distro line : Text) : Prop :=
  checkContains line distro = .ok true ∨ withDistro distro line = line

/-- Seeing to a line that is up to date changes nothing. -/
theorem updated_eq_self_iff {distro line : Text} {b : Bool}
    (h : checkContains line distro = .ok b) :
    updated distro line = line ↔ UpToDate distro line := by
  unfold updated UpToDate
  rw [h]
  cases b with
  | true => simp
  | false => simp

/-- Without an exception `add_requires` touches only the named question, exactly when the list of
distributions that it comes to stands in the question's block or needs no change. -/
theorem addRequires_touches_own_iff {ident distro : Text} {lines out : List Text}
    (h : addRequires ident distro lines = .ok out) :
    TouchesOwn ident distro lines out ↔
      ∀ i, requireAfter ident lines = some i → ∀ line, lines[i]? = some line →
        InBlock ident lines i ∨ UpToDate distro line := by
  obtain ⟨rfl, hsplit⟩ := addRequires_ok h
  constructor
  · intro htouches i hi line hline
    obtain ⟨line', hline', -, b, hcheck⟩ := hsplit i hi
    obtain rfl : line' = line := Option.some.inj (hline'.symm.trans hline)
    have hout : (rewrite distro lines ident)[i]? = some (updated distro line') := by
      rw [getElem?_rewrite, hline, Option.map_some, if_pos hi]
    by_cases hsame : updated distro line' = line'
    · exact Or.inr ((updated_eq_self_iff hcheck).mp hsame)
    · refine Or.inl (htouches.own i line' hline ?_).2.1
      rw [hout]
      exact fun heq => hsame (Option.some.inj heq)
  · intro hblock
    have helse : ∀ j, requireAfter ident lines ≠ some j →
        (rewrite distro lines ident)[j]? = lines[j]? := by
      intro j hj
      rw [getElem?_rewrite]
      simp [hj]
    refine ⟨?_, ?_, ?_⟩
    · unfold rewrite
      split
      · rfl
      · exact List.length_modify ..
    · cases hfound : requireAfter ident lines with
      | none => exact ⟨0, fun j _ => helse j (by simp [hfound])⟩
      | some i => exact ⟨i, fun j hj => helse j (by simpa [hfound] using fun heq => hj heq.symm)⟩
    · intro i line hline hchanged
      have hi : requireAfter ident lines = some i := by
        by_contra hne
        exact hchanged ((helse i hne).trans hline)
      obtain ⟨line', hline', hrequire, b, hcheck⟩ := hsplit i hi
      obtain rfl : line' = line := Option.some.inj (hline'.symm.trans hline)
      have hout : (rewrite distro lines ident)[i]? = some (updated distro line') := by
        rw [getElem?_rewrite, hline, Option.map_some, if_pos hi]
      rw [hout] at hchanged ⊢
      have hnot : updated distro line' ≠ line' := fun heq => hchanged (congrArg some heq)
      refine ⟨hrequire, (hblock i hi line' hline).resolve_right fun hdate =>
        hnot ((updated_eq_self_iff hcheck).mpr hdate), ?_⟩
      cases b with
      | true => exact absurd ((updated_eq_self_iff hcheck).mpr (Or.inl hcheck)) hnot
      | false =>
          unfold updated
          rw [hcheck]

/-- The first question has no list of distributions of its own. -/
def strayLines : List Text :=
  ["LABEL:a\n".toList, "LABEL:b\n".toList, "REQUIRE_DISTRO:RH\n".toList]

/-- `addRequires_touches_own_iff` for the second question. -/
theorem addRequires_touches_own_second :
    TouchesOwn "b".toList "Yocto".toList strayLines
        ["LABEL:a\n".toList, "LABEL:b\n".toList, "REQUIRE_DISTRO:RH Yocto\n".toList] ↔
      ∀ i, requireAfter "b".toList strayLines = some i → ∀ line, strayLines[i]? = some line →
        InBlock "b".toList strayLines i ∨ UpToDate "Yocto".toList line :=
  addRequires_touches_own_iff (by decide)

/-- Seeing to the first question changes the second one. -/
theorem next_question_touched :
    ¬ ∀ out, addRequires "a".toList "Yocto".toList strayLines = .ok out →
      TouchesOwn "a".toList "Yocto".toList strayLines out := by
  intro h
  have hout : addRequires "a".toList "Yocto".toList strayLines =
      .ok ["LABEL:a\n".toList, "LABEL:b\n".toList, "REQUIRE_DISTRO:RH Yocto\n".toList] := by decide
  have hfound : requireAfter "a".toList strayLines = some 2 := by decide
  have hown : ownRequire "a".toList strayLines = none := by decide
  obtain ⟨-, hblock, -⟩ := (h _ hout).own 2 "REQUIRE_DISTRO:RH\n".toList rfl (by decide)
  rw [inBlock_iff hfound, hown] at hblock
  cases hblock

/-! ## Two questions -/

/-- The line, or what becomes of it when it is a list of distributions. -/
def Seen (distro line line' : Text) : Prop :=
  line' = line ∨ isRequire line = true ∧ line' = updated distro line

/-- A list of distributions that can be split can be split after the change. -/
theorem checkContains_seen {distro : Text} (hcolon : ':' ∉ distro) {line line' : Text}
    (hseen : Seen distro line line') {b : Bool} (h : checkContains line distro = .ok b) :
    ∃ b', checkContains line' distro = .ok b' := by
  rcases hseen with rfl | ⟨-, rfl⟩
  · exact ⟨b, h⟩
  · unfold updated
    rw [h]
    cases b with
    | true => exact ⟨true, h⟩
    | false =>
        unfold checkContains at h
        split at h
        · cases h
        · rename_i label distros hsplit
          obtain ⟨rfl, hlabel, hdistros⟩ := splitTwo_eq_some.mp hsplit
          have hrest : ':' ∉ rstrip distros ++ ' ' :: distro ++ ['\n'] := by
            simp [not_mem_rstrip hdistros, hcolon]
          have hline : withDistro distro (label ++ ':' :: distros) =
              label ++ ':' :: (rstrip distros ++ ' ' :: distro ++ ['\n']) := by
            rw [withDistro, rstrip_append_cons (by decide)]
            simp
          refine ⟨(words (rstrip distros ++ ' ' :: distro ++ ['\n'])).contains distro, ?_⟩
          rw [checkContains, splitTwo_eq_some.mpr ⟨hline, hlabel, hrest⟩]

/-- What was seen to is of the same kind. -/
theorem kind_seen {distro line line' : Text} (h : Seen distro line line') :
    kind line' = kind line := by
  rcases h with rfl | ⟨hrequire, rfl⟩
  · rfl
  · exact kind_updated hrequire distro

/-- The second loop does not stop at lines that were seen to. -/
theorem addDistro_seen {distro : Text} (hcolon : ':' ∉ distro) {lines lines' out : List Text}
    (hseen : List.Forall₂ (Seen distro) lines lines') (h : addDistro distro lines = .ok out) :
    ∃ out', addDistro distro lines' = .ok out' := by
  induction hseen generalizing out with
  | nil => exact ⟨[], rfl⟩
  | @cons line line' rest rest' hline _ ih =>
      have hrequire : isRequire line' = isRequire line :=
        congrArg (fun k => k.2.2) (kind_seen hline)
      rw [addDistro] at h ⊢
      rw [hrequire]
      split at h
      · rename_i hrequire
        rw [if_pos hrequire]
        have hchecked : ∃ b, checkContains line distro = .ok b := by
          cases hcheck : checkContains line distro with
          | ok b => exact ⟨b, rfl⟩
          | error e =>
              rw [hcheck] at h
              cases h
        obtain ⟨b, hcheck⟩ := hchecked
        obtain ⟨b', hcheck'⟩ := checkContains_seen hcolon hline hcheck
        rw [hcheck']
        cases b' with
        | true => exact ⟨_, rfl⟩
        | false => exact ⟨_, rfl⟩
      · rename_i hrequire
        rw [if_neg hrequire]
        obtain ⟨out', hout', -⟩ := map_cons_eq_ok h
        obtain ⟨more, hmore⟩ := ih hout'
        rw [hmore]
        exact ⟨_, rfl⟩

/-- An earlier rewriting raises no exception in a later one. -/
theorem addRequires_seen {ident distro : Text} (hcolon : ':' ∉ distro)
    {lines lines' out : List Text} (hseen : List.Forall₂ (Seen distro) lines lines')
    (h : addRequires ident distro lines = .ok out) :
    ∃ out', addRequires ident distro lines' = .ok out' := by
  induction hseen generalizing out with
  | nil => exact ⟨[], rfl⟩
  | @cons line line' rest rest' hline hrest ih =>
      have hgoOn : ∀ {out}, (addRequires ident distro rest).map (line :: ·) = .ok out →
          ∃ out', (addRequires ident distro rest').map (line' :: ·) = .ok out' := by
        intro out h
        obtain ⟨out', hout', -⟩ := map_cons_eq_ok h
        obtain ⟨more, hmore⟩ := ih hout'
        rw [hmore]
        exact ⟨_, rfl⟩
      have hlabel : isLabel line' = isLabel line := congrArg (fun k => k.2.1) (kind_seen hline)
      rw [addRequires] at h ⊢
      rw [hlabel]
      split at h
      · rename_i hstart
        -- a label is not a list of distributions, so it was not changed
        obtain rfl : line' = line := by
          refine hline.resolve_right fun hseen => ?_
          rw [isLabel_of_isRequire hseen.1] at hstart
          cases hstart
        rw [if_pos hstart]
        cases hsplit : splitTwo ':' line' with
        | none =>
            rw [hsplit] at h
            cases h
        | some parts =>
            simp only [hsplit] at h ⊢
            split at h
            · rename_i hident
              rw [if_pos hident]
              obtain ⟨out', hout', -⟩ := map_cons_eq_ok h
              obtain ⟨more, hmore⟩ := addDistro_seen hcolon hrest hout'
              rw [hmore]
              exact ⟨_, rfl⟩
            · rename_i hident
              rw [if_neg hident]
              exact hgoOn h
      · rename_i hstart
        rw [if_neg hstart]
        exact hgoOn h

/-- A rewriting sees to lines. -/
theorem seen_rewrite (distro : Text) (lines : List Text) (ident : Text) :
    List.Forall₂ (Seen distro) lines (rewrite distro lines ident) := by
  refine List.forall₂_iff_get.mpr ⟨?_, fun i hi hi' => ?_⟩
  · simpa using (congrArg List.length (map_kind_rewrite distro lines ident)).symm
  · have hnew := getElem?_rewrite distro lines ident i
    rw [List.getElem?_eq_getElem hi', List.getElem?_eq_getElem hi, Option.map_some,
      Option.some.injEq] at hnew
    rw [List.get_eq_getElem, List.get_eq_getElem, hnew]
    split
    · rename_i hfound
      obtain ⟨line, hline, hrequire⟩ := isRequire_of_requireAfter hfound
      rw [Option.mem_def, List.getElem?_eq_getElem hi, Option.some.injEq] at hline
      exact Or.inr ⟨hline ▸ hrequire, rfl⟩
    · exact Or.inl rfl

/-- Two questions of one file can be seen to in any order, and one of them again. -/
theorem addRequires_comm {a b distro : Text} (hword : OneWord distro) (hcolon : ':' ∉ distro)
    {lines outA outB : List Text} (ha : addRequires a distro lines = .ok outA)
    (hb : addRequires b distro lines = .ok outB) :
    (∃ out, addRequires b distro outA = .ok out ∧ addRequires a distro outB = .ok out) ∧
      addRequires a distro outA = .ok outA := by
  obtain ⟨rfl, -⟩ := addRequires_ok ha
  obtain ⟨rfl, -⟩ := addRequires_ok hb
  obtain ⟨outAB, hab⟩ := addRequires_seen hcolon (seen_rewrite distro lines a) hb
  obtain ⟨outBA, hba⟩ := addRequires_seen hcolon (seen_rewrite distro lines b) ha
  obtain ⟨outAA, haa⟩ := addRequires_seen hcolon (seen_rewrite distro lines a) ha
  obtain ⟨rfl, -⟩ := addRequires_ok hab
  obtain ⟨rfl, -⟩ := addRequires_ok hba
  obtain ⟨rfl, -⟩ := addRequires_ok haa
  -- only the set of the questions decides what becomes of a line
  have hsame : ∀ first second : List Text, (∀ ident, ident ∈ first ↔ ident ∈ second) →
      rewriteAll distro lines first = rewriteAll distro lines second := by
    intro first second hiff
    refine List.ext_getElem? fun i => ?_
    rw [getElem?_rewriteAll hword, getElem?_rewriteAll hword]
    simp only [hiff]
  have horder : rewrite distro (rewrite distro lines a) b =
      rewrite distro (rewrite distro lines b) a :=
    hsame [a, b] [b, a] fun ident => by simp [or_comm]
  have htwice : rewrite distro (rewrite distro lines a) a = rewrite distro lines a :=
    hsame [a, a] [a] fun ident => by simp
  refine ⟨⟨_, hab, ?_⟩, ?_⟩
  · rw [horder]
    exact hba
  · rw [htwice] at haa
    exact haa

/-- `addRequires_comm` for two questions that share a list of distributions. -/
theorem addRequires_comm_stray :
    (∃ out, addRequires "b".toList "Yocto".toList
          ["LABEL:a\n".toList, "LABEL:b\n".toList, "REQUIRE_DISTRO:RH Yocto\n".toList] = .ok out ∧
        addRequires "a".toList "Yocto".toList
          ["LABEL:a\n".toList, "LABEL:b\n".toList, "REQUIRE_DISTRO:RH Yocto\n".toList] = .ok out) ∧
      addRequires "a".toList "Yocto".toList
          ["LABEL:a\n".toList, "LABEL:b\n".toList, "REQUIRE_DISTRO:RH Yocto\n".toList] =
        .ok ["LABEL:a\n".toList, "LABEL:b\n".toList, "REQUIRE_DISTRO:RH Yocto\n".toList] := by
  have hword : OneWord "Yocto".toList := ⟨by decide, List.forall_iff_forall_mem.mp (by decide)⟩
  have hfirst : addRequires "a".toList "Yocto".toList strayLines =
      .ok ["LABEL:a\n".toList, "LABEL:b\n".toList, "REQUIRE_DISTRO:RH Yocto\n".toList] := by decide
  have hsecond : addRequires "b".toList "Yocto".toList strayLines =
      .ok ["LABEL:a\n".toList, "LABEL:b\n".toList, "REQUIRE_DISTRO:RH Yocto\n".toList] := by decide
  exact addRequires_comm hword (by decide) hfirst hsecond

end MetaSecurity.Questions
