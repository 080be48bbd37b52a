import MetaSecurity.Questions.Script

/-!
# What add_requires does to the lines of a file

When it raises no exception, `add_requires` changes at most one line, the first `REQUIRE_DISTRO`
after the first `LABEL` with the identifier. Changing such a line does not change which lines are
labels and which are lists of distributions, so one rewriting does not disturb where another lands.
-/

namespace MetaSecurity.Questions

open Library Python

/-! ## Where a question is -/

/-- The identifier on a label with one colon. -/
def labelOf (line : Text) : Option Text :=
  if isLabel line then (splitTwo ':' line).map fun parts => strip parts.2 else none

/-- The first list of distributions after the question's label, in its own block or behind. -/
def requireAfter (ident : Text) : List Text → Option Nat
  | [] => none
  | line :: rest =>
      if labelOf line = some ident then (rest.findIdx? isRequire).map (· + 1)
      else (requireAfter ident rest).map (· + 1)

/-- The first list of distributions before the next label. -/
def blockRequire : List Text → Option Nat
  | [] => none
  | line :: rest =>
      if isLabel line then none
      else if isRequire line then some 0
      else (blockRequire rest).map (· + 1)

/-- The question's own list of distributions: between the first label with its identifier and the
next label. -/
def ownRequire (ident : Text) : List Text → Option Nat
  | [] => none
  | line :: rest =>
      if labelOf line = some ident then (blockRequire rest).map (· + 1)
      else (ownRequire ident rest).map (· + 1)

/-- A list of distributions that has been seen to. -/
def updated (distro line : Text) : Text :=
  match checkContains line distro with
  | .ok false => withDistro distro line
  | _ => line

/-- The lines of a file after one question has been seen to. -/
def rewrite (distro : Text) (lines : List Text) (ident : Text) : List Text :=
  match requireAfter ident lines with
  | none => lines
  | some i => lines.modify i (updated distro)

/-! ## The loops -/

/-- A result that was extended by a line. -/
theorem map_cons_eq_ok {continued : Except ValueError (List Text)} {line : Text}
    {out : List Text} (h : continued.map (line :: ·) = .ok out) :
    ∃ rest, continued = .ok rest ∧ out = line :: rest := by
  cases continued with
  | error e => cases h
  | ok rest =>
      cases h
      exact ⟨rest, rfl, rfl⟩

/-- The second loop sees to the first list of distributions. -/
theorem addDistro_ok {distro : Text} {lines out : List Text}
    (h : addDistro distro lines = .ok out) :
    match lines.findIdx? isRequire with
    | none => out = lines
    | some i => out = lines.modify i (updated distro) ∧
        ∃ line ∈ lines[i]?, isRequire line = true ∧ ∃ b, checkContains line distro = .ok b := by
  induction lines generalizing out with
  | nil =>
      cases h
      rfl
  | cons line rest ih =>
      rw [addDistro] at h
      rw [List.findIdx?_cons]
      by_cases hrequire : isRequire line = true
      · rw [if_pos hrequire] at h
        rw [if_pos hrequire]
        have hupdated : out = updated distro line :: rest ∧
            ∃ b, checkContains line distro = .ok b := by
          unfold updated
          split at h
          · cases h
          · rename_i hcheck
            rw [hcheck]
            cases h
            exact ⟨rfl, true, rfl⟩
          · rename_i hcheck
            rw [hcheck]
            cases h
            exact ⟨rfl, false, rfl⟩
        exact ⟨hupdated.1, line, rfl, hrequire, hupdated.2⟩
      · rw [if_neg hrequire] at h
        rw [if_neg hrequire]
        obtain ⟨rest', hrest, rfl⟩ := map_cons_eq_ok h
        have hnext := ih hrest
        cases hfound : rest.findIdx? isRequire with
        | none =>
            rw [hfound] at hnext
            exact congrArg (line :: ·) hnext
        | some i =>
            rw [hfound] at hnext
            exact ⟨congrArg (line :: ·) hnext.1, hnext.2⟩

/-- The first loop goes over to the second one behind the label of the question. -/
theorem addRequires_cons_ok {ident distro line : Text} {rest out : List Text}
    (h : addRequires ident distro (line :: rest) = .ok out) :
    (labelOf line = some ident ∧ (addDistro distro rest).map (line :: ·) = .ok out) ∨
      (labelOf line ≠ some ident ∧ (addRequires ident distro rest).map (line :: ·) = .ok out) := by
  rw [addRequires] at h
  unfold labelOf
  by_cases hlabel : isLabel line = true
  · rw [if_pos hlabel] at h ⊢
    cases hsplit : splitTwo ':' line with
    | none => simp [hsplit] at h
    | some parts =>
        simp only [hsplit] at h
        by_cases hident : strip parts.2 = ident
        · rw [if_pos hident] at h
          exact Or.inl ⟨congrArg some hident, h⟩
        · rw [if_neg hident] at h
          exact Or.inr ⟨fun heq => hident (Option.some.inj heq), h⟩
  · rw [if_neg hlabel] at h ⊢
    exact Or.inr ⟨nofun, h⟩

/-- Without an exception `add_requires` is `rewrite`, and the list of distributions that it comes
to can be split. -/
theorem addRequires_ok {ident distro : Text} {lines out : List Text}
    (h : addRequires ident distro lines = .ok out) :
    out = rewrite distro lines ident ∧ ∀ i, requireAfter ident lines = some i →
      ∃ line ∈ lines[i]?, isRequire line = true ∧ ∃ b, checkContains line distro = .ok b := by
  induction lines generalizing out with
  | nil =>
      cases h
      exact ⟨rfl, fun i hi => nomatch hi⟩
  | cons line rest ih =>
      unfold rewrite
      rw [requireAfter]
      rcases addRequires_cons_ok h with ⟨hlabel, h⟩ | ⟨hlabel, h⟩
      · rw [if_pos hlabel]
        obtain ⟨rest', hrest, rfl⟩ := map_cons_eq_ok h
        have hnext := addDistro_ok hrest
        cases hfound : rest.findIdx? isRequire with
        | none =>
            rw [hfound] at hnext
            exact ⟨congrArg (line :: ·) hnext, fun i hi => nomatch hi⟩
        | some i =>
            rw [hfound] at hnext
            refine ⟨congrArg (line :: ·) hnext.1, fun j hj => ?_⟩
            cases hj
            exact hnext.2
      · rw [if_neg hlabel]
        obtain ⟨rest', hrest, rfl⟩ := map_cons_eq_ok h
        obtain ⟨hout, hsplit⟩ := ih hrest
        unfold rewrite at hout
        cases hfound : requireAfter ident rest with
        | none =>
            rw [hfound] at hout
            exact ⟨congrArg (line :: ·) hout, fun i hi => nomatch hi⟩
        | some i =>
            rw [hfound] at hout
            refine ⟨congrArg (line :: ·) hout, fun j hj => ?_⟩
            cases hj
            exact hsplit i hfound

/-! ## What a rewriting leaves alone -/

/-- What the search for a question looks at in a line. -/
def kind (line : Text) : Option Text × Bool × Bool :=
  (labelOf line, isLabel line, isRequire line)

/-- A list of distributions is no label. -/
theorem isLabel_of_isRequire {line : Text} (h : isRequire line = true) : isLabel line = false := by
  obtain ⟨rest, rfl⟩ := List.isPrefixOf_iff_prefix.mp h
  rfl

/-- All lists of distributions are of one kind. -/
theorem kind_of_isRequire {line : Text} (h : isRequire line = true) :
    kind line = (none, false, true) := by
  have hlabel := isLabel_of_isRequire h
  simp [kind, labelOf, hlabel, h]

/-- A list of distributions stays one. -/
theorem isRequire_withDistro {line : Text} (h : isRequire line = true) (distro : Text) :
    isRequire (withDistro distro line) = true := by
  obtain ⟨rest, rfl⟩ := List.isPrefixOf_iff_prefix.mp h
  have hkept : rstrip ("REQUIRE_DISTRO".toList ++ rest) = "REQUIRE_DISTRO".toList ++ rstrip rest :=
    rstrip_append_cons (c := 'O') (by decide) "REQUIRE_DISTR".toList rest
  rw [withDistro, hkept, List.append_assoc, List.append_assoc]
  exact List.isPrefixOf_iff_prefix.mpr (List.prefix_append ..)

/-- Seeing to a list of distributions leaves its kind as it is. -/
theorem kind_updated {line : Text} (h : isRequire line = true) (distro : Text) :
    kind (updated distro line) = kind line := by
  have hupdated : isRequire (updated distro line) = true := by
    unfold updated
    split
    · exact isRequire_withDistro h distro
    · exact h
  rw [kind_of_isRequire hupdated, kind_of_isRequire h]

/-- The line that `add_requires` comes to is a list of distributions. -/
theorem isRequire_of_requireAfter {ident : Text} {lines : List Text} {i : Nat}
    (h : requireAfter ident lines = some i) : ∃ line ∈ lines[i]?, isRequire line = true := by
  induction lines generalizing i with
  | nil => cases h
  | cons line rest ih =>
      rw [requireAfter] at h
      split at h
      · obtain ⟨j, hj, rfl⟩ := Option.map_eq_some_iff.mp h
        obtain ⟨hlt, hrequire, -⟩ := List.findIdx?_eq_some_iff_getElem.mp hj
        exact ⟨rest[j], by simp [hlt], hrequire⟩
      · obtain ⟨j, hj, rfl⟩ := Option.map_eq_some_iff.mp h
        obtain ⟨found, hfound, hrequire⟩ := ih hj
        exact ⟨found, by simpa using hfound, hrequire⟩

/-- Only the kinds of the lines decide where a question is found. -/
theorem search_congr (ident : Text) {lines lines' : List Text}
    (h : lines.map kind = lines'.map kind) :
    requireAfter ident lines = requireAfter ident lines' ∧
      blockRequire lines = blockRequire lines' ∧
        ownRequire ident lines = ownRequire ident lines' := by
  induction lines generalizing lines' with
  | nil =>
      rw [List.map_eq_nil_iff.mp h.symm]
      exact ⟨rfl, rfl, rfl⟩
  | cons line rest ih =>
      cases lines' with
      | nil => cases h
      | cons line' rest' =>
          obtain ⟨hkind, hrest⟩ := List.cons.inj h
          have hlabelOf : labelOf line = labelOf line' := congrArg Prod.fst hkind
          have hlabel : isLabel line = isLabel line' := congrArg (fun k => k.2.1) hkind
          have hrequire : isRequire line = isRequire line' := congrArg (fun k => k.2.2) hkind
          have hfound : rest.findIdx? isRequire = rest'.findIdx? isRequire := by
            have hmap := congrArg (List.findIdx? fun k => k.2.2) hrest
            rwa [List.findIdx?_map, List.findIdx?_map] at hmap
          obtain ⟨hafter, hblock, hown⟩ := ih hrest
          refine ⟨?_, ?_, ?_⟩
          · rw [requireAfter, requireAfter, hlabelOf, hfound, hafter]
          · rw [blockRequire, blockRequire, hlabel, hrequire, hblock]
          · rw [ownRequire, ownRequire, hlabelOf, hblock, hown]

/-- A rewriting changes no kind. -/
theorem map_kind_rewrite (distro : Text) (lines : List Text) (ident : Text) :
    (rewrite distro lines ident).map kind = lines.map kind := by
  unfold rewrite
  cases hfound : requireAfter ident lines with
  | none => rfl
  | some i =>
      obtain ⟨line, hline, hrequire⟩ := isRequire_of_requireAfter hfound
      refine List.ext_getElem? fun j => ?_
      rw [List.getElem?_map, List.getElem?_map, List.getElem?_modify]
      by_cases hj : i = j
      · subst hj
        rw [Option.mem_def.mp hline]
        simp [kind_updated hrequire]
      · simp [hj]

/-- The lines after a rewriting. -/
theorem getElem?_rewrite (distro : Text) (lines : List Text) (ident : Text) (i : Nat) :
    (rewrite distro lines ident)[i]? = lines[i]?.map fun line =>
      if requireAfter ident lines = some i then updated distro line else line := by
  unfold rewrite
  cases hfound : requireAfter ident lines with
  | none => simp
  | some j =>
      rw [List.getElem?_modify]
      by_cases hj : j = i
      · simp [hj]
      · simp [hj]

/-- A list of its own is the one that `add_requires` comes to. -/
theorem requireAfter_of_ownRequire {ident : Text} {lines : List Text} {i : Nat}
    (h : ownRequire ident lines = some i) : requireAfter ident lines = some i := by
  have hblock : ∀ (rest : List Text) (j : Nat), blockRequire rest = some j →
      rest.findIdx? isRequire = some j := by
    intro rest
    induction rest with
    | nil => exact fun j hj => nomatch hj
    | cons line rest ih =>
        intro j hj
        rw [blockRequire] at hj
        rw [List.findIdx?_cons]
        split at hj
        · cases hj
        · split at hj
          · rename_i hrequire
            rw [if_pos hrequire, hj]
          · rename_i hrequire
            obtain ⟨k, hk, rfl⟩ := Option.map_eq_some_iff.mp hj
            rw [if_neg hrequire, ih k hk]
            rfl
  induction lines generalizing i with
  | nil => cases h
  | cons line rest ih =>
      rw [ownRequire] at h
      rw [requireAfter]
      split at h
      · rename_i hlabel
        obtain ⟨j, hj, rfl⟩ := Option.map_eq_some_iff.mp h
        rw [if_pos hlabel, hblock rest j hj]
        rfl
      · rename_i hlabel
        obtain ⟨j, hj, rfl⟩ := Option.map_eq_some_iff.mp h
        rw [if_neg hlabel, ih hj]
        rfl

/-! ## Repetition -/

/-- The field of the line lists the distribution. -/
def listed (distro line : Text) : Bool := (words (afterFirst ':' line)).contains distro

/-- A line that was looked at without an exception lists the distribution when it has been seen
to. -/
theorem listed_updated {distro : Text} (hword : OneWord distro) {line : Text} {b : Bool}
    (h : checkContains line distro = .ok b) : listed distro (updated distro line) = true := by
  have hsplit : ∃ label distros, splitTwo ':' line = some (label, distros) ∧
      (words distros).contains distro = b := by
    unfold checkContains at h
    split at h
    · cases h
    · rename_i label distros hsplit
      exact ⟨label, distros, hsplit, Except.ok.inj h⟩
  obtain ⟨label, distros, hsplit, hcontains⟩ := hsplit
  unfold updated
  rw [h]
  cases b with
  | true => rw [listed, afterFirst_of_splitTwo hsplit, hcontains]
  | false =>
      obtain ⟨hline, hlabel, -⟩ := splitTwo_eq_some.mp hsplit
      have hstripped : rstrip line = label ++ ':' :: rstrip distros := by
        rw [hline, rstrip_append_cons (by decide)]
      rw [listed, withDistro, hstripped, List.append_assoc, List.append_assoc, List.cons_append,
        afterFirst_append hlabel, List.contains_iff_mem, ← List.append_assoc]
      exact mem_words_append hword (rstrip distros)

/-- A line that lists the distribution is left as it is. -/
theorem updated_of_listed {distro line : Text} (h : listed distro line = true) :
    updated distro line = line := by
  unfold updated
  split
  · rename_i hcheck
    unfold checkContains at hcheck
    split at hcheck
    · cases hcheck
    · rename_i hsplit
      rw [listed, afterFirst_of_splitTwo hsplit, Except.ok.inj hcheck] at h
      cases h
  · rfl

/-- Seeing to a line a second time changes nothing. -/
theorem updated_updated {distro : Text} (hword : OneWord distro) (line : Text) :
    updated distro (updated distro line) = updated distro line := by
  cases hcheck : checkContains line distro with
  | ok b => exact updated_of_listed (listed_updated hword hcheck)
  | error e =>
      have hsame : updated distro line = line := by
        unfold updated
        rw [hcheck]
      rw [hsame, hsame]

/-- The lines of a file after several questions have been seen to. -/
def rewriteAll (distro : Text) (lines : List Text) (idents : List Text) : List Text :=
  idents.foldl (rewrite distro) lines

/-- No kind changes. -/
theorem map_kind_rewriteAll (distro : Text) (lines idents : List Text) :
    (rewriteAll distro lines idents).map kind = lines.map kind := by
  induction idents generalizing lines with
  | nil => rfl
  | cons ident idents ih =>
      rw [← map_kind_rewrite distro lines ident, ← ih (rewrite distro lines ident)]
      rfl

/-- Each line that one of the rewritings comes to is seen to once. -/
theorem getElem?_rewriteAll {distro : Text} (hword : OneWord distro) (lines idents : List Text)
    (i : Nat) : (rewriteAll distro lines idents)[i]? = lines[i]?.map fun line =>
      if ∃ ident ∈ idents, requireAfter ident lines = some i then updated distro line
      else line := by
  induction idents generalizing lines with
  | nil => simp [rewriteAll]
  | cons ident idents ih =>
      have hlands : ∀ other, requireAfter other (rewrite distro lines ident) =
          requireAfter other lines :=
        fun other => (search_congr other (map_kind_rewrite distro lines ident)).1
      have hnext := ih (rewrite distro lines ident)
      simp only [hlands] at hnext
      rw [getElem?_rewrite, Option.map_map] at hnext
      refine hnext.trans (Option.map_congr fun line _ => ?_)
      -- the first rewriting and the later ones may come to the same line
      by_cases hfirst : requireAfter ident lines = some i
      · by_cases hlater : ∃ other ∈ idents, requireAfter other lines = some i
        · simp [hfirst, hlater, updated_updated hword]
        · simp [hfirst, hlater]
      · simp [hfirst]

/-! ## Reading a file again -/

/-- Characters that a text does not have, its stripped form does not have. -/
theorem not_mem_rstrip {t : Text} {c : Char} (h : c ∉ t) : c ∉ rstrip t :=
  fun hmem => h ((List.rdropWhile_prefix isSpace t).subset hmem)

/-- What `rstrip` leaves of a line is free of newlines. -/
theorem not_mem_rstrip_of_lined {lines : List Text} (h : Lined lines) {line : Text}
    (hline : line ∈ lines) : '\n' ∉ rstrip line := by
  induction h with
  | nil => cases hline
  | last _ hnewline =>
      rw [List.mem_singleton.mp hline]
      exact not_mem_rstrip hnewline
  | cons hbody _ ih =>
      rcases List.mem_cons.mp hline with rfl | hrest
      · rw [rstrip, List.rdropWhile_concat_pos _ _ _ (by decide)]
        exact not_mem_rstrip hbody
      · exact ih hrest

/-- Changing one item in place changes each item as it may be changed. -/
theorem forall₂_modify {α : Type*} {R : α → α → Prop} (hrefl : ∀ a, R a a) {f : α → α}
    {xs : List α} (h : ∀ a ∈ xs, R a (f a)) (i : Nat) : List.Forall₂ R xs (xs.modify i f) := by
  induction xs generalizing i with
  | nil =>
      rw [List.modify_nil]
      exact .nil
  | cons x xs ih =>
      have hrest : ∀ a ∈ xs, R a (f a) := fun a ha => h a (List.mem_cons_of_mem x ha)
      cases i with
      | zero => exact .cons (h x List.mem_cons_self) (List.forall₂_same.mpr fun a _ => hrefl a)
      | succ i => exact .cons (hrefl x) (ih hrest i)

/-- A sequence of lines as it is read from a file. -/
structure Readable (lines : List Text) : Prop where
  lined : Lined lines
  plain : ∀ line ∈ lines, '\r' ∉ line

/-- What is read is readable. -/
theorem readable_readlines (t : Text) : Readable (readlines t) :=
  ⟨(lines_spec _).2, fun _ => not_mem_of_mem_readlines⟩

/-- One word at the end of a readable line leaves it a readable line. -/
theorem withDistro_spec {distro : Text} (hword : OneWord distro) {lines : List Text}
    (h : Readable lines) {line : Text} (hline : line ∈ lines) :
    '\n' ∉ rstrip line ++ ' ' :: distro ∧ '\r' ∉ withDistro distro line := by
  have hspace : ∀ c : Char, isSpace c = true → c ≠ ' ' → c ∉ rstrip line →
      c ∉ rstrip line ++ ' ' :: distro := by
    intro c hc hblank hstripped hmem
    rcases List.mem_append.mp hmem with hmem | hmem
    · exact hstripped hmem
    · rcases List.mem_cons.mp hmem with heq | hmem
      · exact hblank heq
      · rw [hword.2 c hmem] at hc
        cases hc
  refine ⟨hspace '\n' (by decide) (by decide) (not_mem_rstrip_of_lined h.lined hline), ?_⟩
  intro hmem
  rcases List.mem_append.mp hmem with hmem | hmem
  · exact hspace '\r' (by decide) (by decide) (not_mem_rstrip (h.plain line hline)) hmem
  · exact absurd (List.mem_singleton.mp hmem) (by decide)

/-- With one word for the distribution, a rewriting leaves lines that are read back. -/
theorem Readable.rewrite {distro : Text} (hword : OneWord distro) {lines : List Text}
    (h : Readable lines) (ident : Text) : Readable (rewrite distro lines ident) := by
  have hlined : ∀ line ∈ lines, updated distro line = line ∨
      ∃ body, '\n' ∉ body ∧ updated distro line = body ++ ['\n'] := by
    intro line hline
    unfold updated
    split
    · exact Or.inr ⟨_, (withDistro_spec hword h hline).1, rfl⟩
    · exact Or.inl rfl
  have hplain : ∀ line ∈ lines, '\r' ∉ updated distro line := by
    intro line hline
    unfold updated
    split
    · exact (withDistro_spec hword h hline).2
    · exact h.plain line hline
  constructor
  · unfold Questions.rewrite
    split
    · exact h.lined
    · refine h.lined.replace (forall₂_modify ?_ hlined _)
      exact fun line => Or.inl rfl
  · intro line' hline'
    obtain ⟨i, hi⟩ := List.mem_iff_getElem?.mp hline'
    rw [getElem?_rewrite] at hi
    obtain ⟨line, hline, rfl⟩ := Option.map_eq_some_iff.mp hi
    split
    · exact hplain line (List.mem_of_getElem? hline)
    · exact h.plain line (List.mem_of_getElem? hline)

/-- What was written after a rewriting is read back. -/
theorem readlines_rewrite {distro : Text} (hword : OneWord distro) (t ident : Text) :
    readlines (rewrite distro (readlines t) ident).flatten =
      rewrite distro (readlines t) ident := by
  have hreadable := (readable_readlines t).rewrite hword ident
  exact readlines_flatten hreadable.lined hreadable.plain

end MetaSecurity.Questions
