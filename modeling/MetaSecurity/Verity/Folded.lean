import MetaSecurity.Library.Shell.Folding
import MetaSecurity.Verity.Uuid

/-!
# Root hashes of any length

`process_verity` hands to `bc` whatever the report calls the root hash. A long result comes back
folded over several lines, and the filters that make a UUID work on each line. `uuidOf_folded` says
that the UUID is then folded, too, so that the environment file remains a file of assignments.
-/

namespace MetaSecurity.Verity

open Library Shell

/-! ## Numbers -/

/-- The characters of a number that `bc` prints, in either case. -/
def isNumberChar (c : Char) : Bool :=
  "0123456789ABCDEFabcdef-.".toList.contains c

theorem numberChar_spec {c : Char} (h : isNumberChar c = true) :
    isNumberChar (lowerHex c) = true ∧ isLiteral c = true ∧ isPattern [c] = false ∧
      c ≠ ':' ∧ c ≠ '\\' ∧ c ≠ '\n' := by
  have hall : "0123456789ABCDEFabcdef-.".toList.Forall fun c =>
      isNumberChar (lowerHex c) = true ∧ isLiteral c = true ∧ isPattern [c] = false ∧
        c ≠ ':' ∧ c ≠ '\\' ∧ c ≠ '\n' := by decide
  exact List.forall_iff_forall_mem.mp hall c (by simpa [isNumberChar] using h)

/-- A number in one or more parts, the last of which is not empty. -/
def IsNumber : List Text → Prop
  | [] => False
  | [part] => part ≠ [] ∧ ∀ c ∈ part, isNumberChar c = true
  | part :: other :: parts =>
      (∀ c ∈ part, isNumberChar c = true) ∧ IsNumber (other :: parts)

theorem IsNumber.chars {parts : List Text} (h : IsNumber parts) :
    ∀ part ∈ parts, ∀ c ∈ part, isNumberChar c = true := by
  induction parts with
  | nil => cases h
  | cons part parts ih =>
      cases parts with
      | nil => simpa using h.2
      | cons other parts =>
          rintro later hlater
          rcases List.mem_cons.mp hlater with rfl | hlater
          · exact h.1
          · exact ih h.2 later hlater

/-- A folded number ends in a character of the number. -/
theorem IsNumber.exists_last {parts : List Text} (h : IsNumber parts) :
    ∃ front c, fold parts = front ++ [c] ∧ isNumberChar c = true := by
  induction parts with
  | nil => cases h
  | cons part parts ih =>
      cases parts with
      | nil =>
          obtain ⟨front, c, rfl⟩ := List.eq_nil_or_concat' part |>.resolve_left h.1
          exact ⟨front, c, rfl, h.2 c (by simp)⟩
      | cons other parts =>
          obtain ⟨front, c, hfold, hc⟩ := ih h.2
          exact ⟨part ++ '\\' :: '\n' :: front, c, by simp [fold_cons_cons, hfold], hc⟩

theorem substitution_number {parts : List Text} (h : IsNumber parts) :
    substitution (fold parts ++ ['\n']) = fold parts := by
  obtain ⟨front, c, hfold, hc⟩ := h.exists_last
  have hne : c ≠ '\n' := (numberChar_spec hc).2.2.2.2.2
  rw [hfold, substitution, List.rdropWhile_concat_pos _ _ _ (by simp),
    List.rdropWhile_concat_neg _ _ _ (by simpa using hne)]

/-- The characters of a folded number. -/
theorem IsNumber.of_mem_fold {parts : List Text} (h : IsNumber parts) {c : Char}
    (hc : c ∈ fold parts) : c = '\\' ∨ c = '\n' ∨ isNumberChar c = true := by
  rcases mem_fold hc with hc | hc | ⟨part, hpart, hc⟩
  · exact .inl hc
  · exact .inr (.inl hc)
  · exact .inr (.inr (h.chars part hpart c hc))

/-! ## Filters on folded lines -/

/-- A filter that keeps the last character of a line and adds at most hyphens. -/
def KeepsEnd (f : Text → Text) : Prop :=
  ∀ front c, ∃ front', f (front ++ [c]) = front' ++ [c] ∧ ∀ d ∈ front', d = '-' ∨ d ∈ front

/-- The first line of a filtered text. -/
theorem mapLines_append_cons (f : Text → Text) {line : Text} (h : '\n' ∉ line) (t : Text) :
    mapLines f (line ++ '\n' :: t) = f line ++ '\n' :: mapLines f t := by
  simp [mapLines, records_append_cons h, remainder_append_cons h]

/-- Such a filter leaves a number folded. -/
theorem mapLines_number {f : Text → Text} (hf : KeepsEnd f) {parts : List Text}
    (h : IsNumber parts) :
    ∃ parts', IsNumber parts' ∧ mapLines f (fold parts ++ ['\n']) = fold parts' ++ ['\n'] := by
  have hline : ∀ {t : Text}, (∀ c ∈ t, isNumberChar c = true) → '\n' ∉ t := fun ht hmem =>
    (numberChar_spec (ht _ hmem)).2.2.2.2.2 rfl
  have hkept : ∀ {front front' : Text}, (∀ c ∈ front, isNumberChar c = true) →
      (∀ d ∈ front', d = '-' ∨ d ∈ front) → ∀ d ∈ front', isNumberChar d = true := by
    intro front front' hfront hmem d hd
    rcases hmem d hd with rfl | hd
    · decide
    · exact hfront d hd
  induction parts with
  | nil => cases h
  | cons part parts ih =>
      cases parts with
      | nil =>
          obtain ⟨hne, hchars⟩ := h
          obtain ⟨front, c, rfl⟩ := List.eq_nil_or_concat' part |>.resolve_left hne
          obtain ⟨front', heq, hmem⟩ := hf front c
          refine ⟨[front' ++ [c]], ⟨by simp, fun d hd => ?_⟩, ?_⟩
          · rcases List.mem_append.mp hd with hd | hd
            · exact hkept (fun c hc => hchars c (by simp [hc])) hmem d hd
            · exact hchars d (by simp [List.mem_singleton.mp hd])
          · rw [fold, fold, mapLines_line f (hline hchars), heq]
      | cons other parts =>
          obtain ⟨hchars, hrest⟩ := h
          obtain ⟨parts', hnumber, hmap⟩ := ih hrest
          obtain ⟨front', heq, hmem⟩ := hf part '\\'
          obtain ⟨other', parts', rfl⟩ : ∃ other' more, parts' = other' :: more := by
            cases parts' with
            | nil => cases hnumber
            | cons other' more => exact ⟨other', more, rfl⟩
          refine ⟨front' :: other' :: parts', ⟨hkept hchars hmem, hnumber⟩, ?_⟩
          have hcontinued : '\n' ∉ part ++ ['\\'] := by
            simpa using hline hchars
          have hshape : fold (part :: other :: parts) ++ ['\n'] =
              (part ++ ['\\']) ++ '\n' :: (fold (other :: parts) ++ ['\n']) := by
            simp [fold_cons_cons]
          rw [hshape, mapLines_append_cons f hcontinued, heq, hmap, fold_cons_cons]
          simp

theorem keepsEnd_last32 : KeepsEnd last32 := by
  intro front c
  unfold last32
  split
  · next hlength =>
    rw [List.length_append, List.length_singleton] at hlength ⊢
    refine ⟨front.drop (front.length + 1 - 32), ?_, fun d hd => .inr (List.mem_of_mem_drop hd)⟩
    rw [List.drop_append_of_le_length (by omega)]
  · exact ⟨front, rfl, fun d hd => .inr hd⟩

theorem keepsEnd_hyphenAt (i : Nat) : KeepsEnd (hyphenAt i) := by
  intro front c
  unfold hyphenAt
  split
  · next hlength =>
    rw [List.length_append, List.length_singleton] at hlength
    refine ⟨front.take i ++ '-' :: front.drop i, ?_, fun d hd => ?_⟩
    · rw [List.take_append_of_le_length (by omega), List.drop_append_of_le_length (by omega)]
      simp
    · rcases List.mem_append.mp hd with hd | hd
      · exact .inr (List.mem_of_mem_take hd)
      · exact (List.mem_cons.mp hd).imp id List.mem_of_mem_drop
  · exact ⟨front, rfl, fun d hd => .inr hd⟩

theorem KeepsEnd.comp {f g : Text → Text} (hf : KeepsEnd f) (hg : KeepsEnd g) :
    KeepsEnd fun t => f (g t) := by
  intro front c
  obtain ⟨front', hfirst, hmem⟩ := hg front c
  obtain ⟨front'', hsecond, hmem'⟩ := hf front' c
  refine ⟨front'', (congrArg f hfirst).trans hsecond, fun d hd => ?_⟩
  rcases hmem' d hd with hd | hd
  · exact .inl hd
  · exact hmem d hd

theorem keepsEnd_hyphenate : KeepsEnd hyphenate :=
  (keepsEnd_hyphenAt 23).comp ((keepsEnd_hyphenAt 18).comp
    ((keepsEnd_hyphenAt 13).comp (keepsEnd_hyphenAt 8)))

/-- The change to lower case leaves a number folded. -/
theorem map_lowerHex_number {parts : List Text} (h : IsNumber parts) :
    IsNumber (parts.map fun part => part.map lowerHex) ∧
      (fold parts).map lowerHex = fold (parts.map fun part => part.map lowerHex) := by
  have hlower : ∀ {t : Text}, (∀ c ∈ t, isNumberChar c = true) →
      ∀ c ∈ t.map lowerHex, isNumberChar c = true := by
    intro t ht c hc
    obtain ⟨d, hd, rfl⟩ := List.mem_map.mp hc
    exact (numberChar_spec (ht d hd)).1
  induction parts with
  | nil => cases h
  | cons part parts ih =>
      cases parts with
      | nil => exact ⟨⟨by simpa using h.1, hlower h.2⟩, rfl⟩
      | cons other parts =>
          obtain ⟨hnumber, hfold⟩ := ih h.2
          refine ⟨⟨hlower h.1, hnumber⟩, ?_⟩
          rw [fold_cons_cons, List.map_append, List.map_cons, List.map_cons, hfold]
          rfl

/-- The pipeline makes a folded number of what `bc` printed: nothing, or a folded number. -/
theorem uuidOf_folded {tools : Tools} (hecho : tools.echo.Continues) {digits : Text}
    (h : digits = [] ∨ ∃ parts, IsNumber parts ∧ digits = fold parts) :
    ∃ parts, IsNumber parts ∧ uuidOf tools digits = fold parts := by
  have hzeros : ∀ c ∈ "00000000".toList, isNumberChar c = true :=
    List.forall_iff_forall_mem.mp (by decide)
  obtain ⟨parts, hnumber, hword, hprinted⟩ : ∃ parts, IsNumber parts ∧
      "00000000".toList ++ digits = fold parts ∧
      tools.echo.output ["00000000".toList ++ digits] = "00000000".toList ++ digits ++ ['\n'] := by
    rcases h with rfl | ⟨parts, hparts, rfl⟩
    · exact ⟨["00000000".toList], ⟨by decide, hzeros⟩, rfl,
        tools.echo.output_singleton (by decide) (by decide)⟩
    · have hslash : ∀ part ∈ parts, '\\' ∉ part := fun part hpart hmem =>
        (numberChar_spec (hparts.chars part hpart _ hmem)).2.2.2.2.1 rfl
      have hprinted := hecho "00000000".toList parts (by decide) (by decide) (by decide) hslash
      cases parts with
      | nil => cases hparts
      | cons part parts =>
          refine ⟨_, ?_, fold_append "00000000".toList part parts, hprinted⟩
          have hjoined : ∀ c ∈ "00000000".toList ++ part, isNumberChar c = true := fun c hc =>
            (List.mem_append.mp hc).elim (hzeros c) (hparts.chars part List.mem_cons_self c)
          cases parts with
          | nil => exact ⟨by simp, hjoined⟩
          | cons other parts => exact ⟨hjoined, hparts.2⟩
  -- no character makes `set` or the pathname expansion change the word
  have hchars : ∀ c ∈ fold parts, c ≠ ':' ∧ isPattern [c] = false := by
    intro c hc
    rcases hnumber.of_mem_fold hc with rfl | rfl | hc
    · decide
    · decide
    · exact ⟨(numberChar_spec hc).2.2.2.1, (numberChar_spec hc).2.2.1⟩
  have hexpand : expandColon tools.pathname (fold parts) = [fold parts] := by
    obtain ⟨front, c, hfold, -⟩ := hnumber.exists_last
    refine expandColon_word _ (by simp [hfold]) (fun hmem => (hchars _ hmem).1 rfl) ?_
    rw [isPattern, List.any_eq_false]
    intro c hc
    simpa [isPattern] using (hchars c hc).2
  -- the filters work on each line, and each keeps the backslash at its end
  obtain ⟨cut, hcut, hlast⟩ := mapLines_number keepsEnd_last32 hnumber
  obtain ⟨hyphened, hhyphened, hmap⟩ := mapLines_number keepsEnd_hyphenate hcut
  obtain ⟨hlower, hfold⟩ := map_lowerHex_number hhyphened
  have hnewline : ['\n'].map lowerHex = ['\n'] := by decide
  refine ⟨_, hlower, ?_⟩
  rw [uuidOf, hword, hexpand, ← hword, hprinted, hword, hlast, hmap, List.map_append, hfold,
    hnewline, substitution_number hlower]

end MetaSecurity.Verity
