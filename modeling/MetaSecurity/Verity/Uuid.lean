import MetaSecurity.Verity.Report

/-!
# The root hash as two partition UUIDs

In separate mode `process_verity` splits the root hash in two with `bc` and writes each half as a
UUID. `bc` drops leading zeros, eight zeros are put in front again, and the result is cut to 32
digits if it has that many. `uuid_encoding_iff` says when this gives back the root hash: when
neither half starts with more than eight zeros.
-/

namespace MetaSecurity.Verity

open Library Shell

/-! ## What `bc` computes -/

/-- The half of the root hash that an operator selects: `/` the first one, `%` the second one. -/
def halfDigits (rootHash : RootHash) (operator : Char) : Text :=
  if operator = '/' then rootHash.digits.take 32 else rootHash.digits.drop 32

/-- The number that an operator selects. -/
def halfNumber (rootHash : RootHash) (operator : Char) : Nat :=
  if operator = '/' then hexNat rootHash.digits / 2 ^ 128 else hexNat rootHash.digits % 2 ^ 128

/-- A number in upper-case hexadecimal digits without leading zeros, on a line. -/
def bcLine (n : Nat) : Text :=
  (Nat.toDigits 16 n).map upperHex ++ ['\n']

/-- `bc` prints nothing but the quotient and the remainder by two to the power of 128. -/
def Reliable (bc : Text → Option Text) : Prop :=
  ∀ (rootHash : RootHash), ∀ operator ∈ ['/', '%'], ∀ output,
    bc (halfProgram (rootHash.digits.map upperHex) operator ++ ['\n']) = some output →
      output = bcLine (halfNumber rootHash operator)

/-- `bc` prints the quotient and the remainder. -/
def Calculates (bc : Text → Option Text) : Prop :=
  ∀ (rootHash : RootHash), ∀ operator ∈ ['/', '%'],
    bc (halfProgram (rootHash.digits.map upperHex) operator ++ ['\n']) =
      some (bcLine (halfNumber rootHash operator))

theorem Calculates.reliable {bc : Text → Option Text} (h : Calculates bc) : Reliable bc := by
  intro rootHash operator hoperator output houtput
  rw [h rootHash operator hoperator] at houtput
  exact (Option.some.inj houtput).symm

theorem length_halfDigits (rootHash : RootHash) (operator : Char) :
    (halfDigits rootHash operator).length = 32 := by
  have hlen := rootHash.length_eq
  unfold halfDigits
  split
  · rw [List.length_take]
    omega
  · rw [List.length_drop]
    omega

theorem hex_halfDigits (rootHash : RootHash) (operator : Char) :
    ∀ c ∈ halfDigits rootHash operator, isHexDigit c = true := by
  intro c hc
  unfold halfDigits at hc
  split at hc
  · exact rootHash.hex c (List.mem_of_mem_take hc)
  · exact rootHash.hex c (List.mem_of_mem_drop hc)

/-- The number that `bc` is asked for is that of the half. -/
theorem halfNumber_eq (rootHash : RootHash) (operator : Char) :
    halfNumber rootHash operator = hexNat (halfDigits rootHash operator) := by
  have hpow : 2 ^ 128 = 16 ^ (rootHash.digits.drop 32).length := by
    have hlen := rootHash.length_eq
    rw [List.length_drop, hlen]
    norm_num
  have hlow : ∀ c ∈ rootHash.digits.drop 32, isHexDigit c = true := fun c hc =>
    rootHash.hex c (List.mem_of_mem_drop hc)
  have hdiv := hexNat_append_div (rootHash.digits.take 32) hlow
  have hmod := hexNat_append_mod (rootHash.digits.take 32) hlow
  rw [List.take_append_drop] at hdiv hmod
  unfold halfNumber halfDigits
  split
  · rw [hpow, hdiv]
  · rw [hpow, hmod]

/-- A half as `bc` prints it: without leading zeros, but never empty. -/
def printed (digits : Text) : Text :=
  if significant digits = [] then ['0'] else significant digits

theorem hex_printed {digits : Text} (h : ∀ c ∈ digits, isHexDigit c = true) :
    ∀ c ∈ printed digits, isHexDigit c = true := by
  intro c hc
  unfold printed at hc
  split at hc
  · rw [List.mem_singleton.mp hc]
    decide
  · exact h c ((List.dropWhile_suffix _).subset hc)

/-! ## The filters on one line -/

/-- A character of a hash or of a UUID. -/
def isUuidChar (c : Char) : Bool :=
  isHexDigit c || c = '-'

/-- The characters of a UUID, in either case: back to lower case, and never special. -/
theorem uuidChar_spec {c : Char} (h : isUuidChar c = true) :
    lowerHex (upperHex c) = c ∧ isLiteral c = true ∧ upperHex c ≠ ':' ∧ upperHex c ≠ '\\' ∧
      upperHex c ≠ '\n' ∧ isPattern [upperHex c] = false ∧ c ≠ '\n' := by
  have hall : ∀ d ∈ '-' :: hexAlphabet, lowerHex (upperHex d) = d ∧ isLiteral d = true ∧
      upperHex d ≠ ':' ∧ upperHex d ≠ '\\' ∧ upperHex d ≠ '\n' ∧
      isPattern [upperHex d] = false ∧ d ≠ '\n' := List.forall_iff_forall_mem.mp (by decide)
  refine hall c ?_
  simp only [isUuidChar, isHexDigit, Bool.or_eq_true, List.contains_iff_mem, decide_eq_true_eq] at h
  rcases h with h | rfl
  · exact List.mem_cons_of_mem _ h
  · exact List.mem_cons_self

theorem isUuidChar_of_hex {t : Text} (h : ∀ c ∈ t, isHexDigit c = true) :
    ∀ c ∈ t, isUuidChar c = true := fun c hc => by simp [isUuidChar, h c hc]

/-- What one `tr` makes upper case, the other one makes lower case again. -/
theorem map_lower_upper {t : Text} (h : ∀ c ∈ t, isUuidChar c = true) :
    (t.map upperHex).map lowerHex = t := by
  rw [List.map_map]
  exact (List.map_congr_left fun c hc => (uuidChar_spec (h c hc)).1).trans (List.map_id _)

/-- A line filter on a single line. -/
theorem mapLines_line (f : Text → Text) {t : Text} (h : '\n' ∉ t) :
    mapLines f (t ++ ['\n']) = f t ++ ['\n'] := by
  have hrecords : records '\n' (t ++ '\n' :: []) = t :: records '\n' [] := records_append_cons h []
  have hremainder : remainder '\n' (t ++ '\n' :: []) = remainder '\n' [] :=
    remainder_append_cons h []
  simp [mapLines, hrecords, hremainder]

theorem mem_of_mem_last32 {t : Text} {c : Char} (h : c ∈ last32 t) : c ∈ t := by
  unfold last32 at h
  split at h
  · exact List.mem_of_mem_drop h
  · exact h

theorem mem_of_mem_hyphenAt {i : Nat} {t : Text} {c : Char} (h : c ∈ hyphenAt i t) :
    c = '-' ∨ c ∈ t := by
  unfold hyphenAt at h
  split at h
  · rcases List.mem_append.mp h with h | h
    · exact Or.inr (List.mem_of_mem_take h)
    · rcases List.mem_cons.mp h with h | h
      · exact Or.inl h
      · exact Or.inr (List.mem_of_mem_drop h)
  · exact Or.inr h

theorem mem_of_mem_hyphenate {t : Text} {c : Char} (h : c ∈ hyphenate t) : c = '-' ∨ c ∈ t := by
  unfold hyphenate at h
  rcases mem_of_mem_hyphenAt h with h | h
  · exact Or.inl h
  rcases mem_of_mem_hyphenAt h with h | h
  · exact Or.inl h
  rcases mem_of_mem_hyphenAt h with h | h
  · exact Or.inl h
  exact mem_of_mem_hyphenAt h

theorem map_last32 (f : Char → Char) (t : Text) : (last32 t).map f = last32 (t.map f) := by
  unfold last32
  rw [List.length_map]
  split
  · rw [List.map_drop]
  · rfl

theorem map_hyphenAt {f : Char → Char} (hf : f '-' = '-') (i : Nat) (t : Text) :
    (hyphenAt i t).map f = hyphenAt i (t.map f) := by
  unfold hyphenAt
  rw [List.length_map]
  split
  · rw [List.map_append, List.map_cons, hf, List.map_take, List.map_drop]
  · rfl

theorem map_hyphenate {f : Char → Char} (hf : f '-' = '-') (t : Text) :
    (hyphenate t).map f = hyphenate (t.map f) := by
  simp only [hyphenate, map_hyphenAt hf]

/-- The UUID that is written for a half, as `bc` prints it. -/
def uuidText (digits : Text) : Text :=
  hyphenate (last32 ("00000000".toList ++ digits))

/-- The half after the zeros in front of it. -/
theorem isUuidChar_padded {digits : Text} (h : ∀ c ∈ digits, isHexDigit c = true) :
    ∀ c ∈ "00000000".toList ++ digits, isUuidChar c = true := by
  have hzeros : ∀ c ∈ "00000000".toList, isUuidChar c = true :=
    List.forall_iff_forall_mem.mp (by decide)
  intro c hc
  rcases List.mem_append.mp hc with hc | hc
  · exact hzeros c hc
  · exact isUuidChar_of_hex h c hc

theorem isUuidChar_of_mem_uuidText {digits : Text} (h : ∀ c ∈ digits, isHexDigit c = true) :
    ∀ c ∈ uuidText digits, isUuidChar c = true := by
  intro c hc
  rcases mem_of_mem_hyphenate hc with rfl | hc
  · decide
  · exact isUuidChar_padded h c (mem_of_mem_last32 hc)

theorem uuid_literal {digits : Text} (h : ∀ c ∈ digits, isHexDigit c = true) :
    (uuidText digits).all isLiteral = true :=
  List.all_eq_true.mpr fun c hc => (uuidChar_spec (isUuidChar_of_mem_uuidText h c hc)).2.1

/-- A word without colons and patterns expands to itself under `IFS=:`. -/
theorem expandColon_word (g : PathnameExpansion) {word : Text} (hne : word ≠ [])
    (hcolon : ':' ∉ word) (hpattern : isPattern word = false) : expandColon g word = [word] := by
  rw [expandColon, List.splitOn_eq_singleton hcolon]
  simp [hne, g.plain word hpattern]

/-- The pipeline that makes a UUID. -/
theorem uuidOf_upper (tools : Tools) {digits : Text} (h : ∀ c ∈ digits, isHexDigit c = true) :
    uuidOf tools (digits.map upperHex) = uuidText digits := by
  have hchar := isUuidChar_padded h
  have hupper : ∀ x ∈ ("00000000".toList ++ digits).map upperHex,
      x ≠ ':' ∧ x ≠ '\\' ∧ x ≠ '\n' ∧ isPattern [x] = false := by
    intro x hx
    obtain ⟨c, hc, rfl⟩ := List.mem_map.mp hx
    have hspec := uuidChar_spec (hchar c hc)
    exact ⟨hspec.2.2.1, hspec.2.2.2.1, hspec.2.2.2.2.1, hspec.2.2.2.2.2.1⟩
  have hzeros : ("00000000".toList ++ digits.map upperHex) =
      ("00000000".toList ++ digits).map upperHex := by
    rw [List.map_append]
    rfl
  have hlower := map_lower_upper hchar
  rw [uuidOf, hzeros]
  -- from here on only the characters of the upper case word matter, and that it starts with 0
  have hhead : (("00000000".toList ++ digits).map upperHex).head? = some '0' := rfl
  generalize ("00000000".toList ++ digits).map upperHex = word at hupper hlower hhead ⊢
  have hne : word ≠ [] := by
    intro hnil
    rw [hnil] at hhead
    cases hhead
  have hpattern : isPattern word = false := by
    rw [isPattern, List.any_eq_false]
    intro x hx
    simpa [isPattern] using (hupper x hx).2.2.2
  have hexpand : expandColon tools.pathname word = [word] :=
    expandColon_word _ hne (fun hmem => (hupper _ hmem).1 rfl) hpattern
  have hecho : tools.echo.output [word] = word ++ ['\n'] :=
    tools.echo.output_singleton (by simp [hhead]) fun hmem => (hupper _ hmem).2.1 rfl
  have hline : '\n' ∉ word := fun hmem => (hupper _ hmem).2.2.1 rfl
  have hcut : '\n' ∉ last32 word := fun hmem => hline (mem_of_mem_last32 hmem)
  have hresult : '\n' ∉ uuidText digits := fun hmem =>
    (uuidChar_spec (isUuidChar_of_mem_uuidText h _ hmem)).2.2.2.2.2.2 rfl
  rw [hexpand, hecho, mapLines_line _ hline, mapLines_line _ hcut, List.map_append,
    map_hyphenate (by decide), map_last32, hlower]
  exact substitution_line hresult

/-- The UUID written for a half of the root hash. -/
def halfUuid (rootHash : RootHash) (operator : Char) : Text :=
  uuidText (printed (halfDigits rootHash operator))

/-- What the substitution of `bc` gives for a half of the root hash. -/
theorem substitution_bcLine (rootHash : RootHash) (operator : Char) :
    substitution (bcLine (halfNumber rootHash operator)) =
      (printed (halfDigits rootHash operator)).map upperHex := by
  have hdigits : Nat.toDigits 16 (halfNumber rootHash operator) =
      printed (halfDigits rootHash operator) := by
    rw [halfNumber_eq, toDigits_hexNat (hex_halfDigits rootHash operator)]
    rfl
  have hline : '\n' ∉ (printed (halfDigits rootHash operator)).map upperHex := by
    intro hmem
    obtain ⟨d, hd, heq⟩ := List.mem_map.mp hmem
    have hhex := hex_printed (hex_halfDigits rootHash operator)
    exact (uuidChar_spec (isUuidChar_of_hex hhex d hd)).2.2.2.2.1 heq
  rw [bcLine, hdigits, substitution_line hline]

/-! ## Well-formed UUIDs -/

/-- A UUID in lower case: groups of 8, 4, 4, 4 and 12 hexadecimal digits. -/
def IsUuid (uuid : Text) : Prop :=
  ∃ a b c d e : Text, uuid = a ++ '-' :: (b ++ '-' :: (c ++ '-' :: (d ++ '-' :: e))) ∧
    a.length = 8 ∧ b.length = 4 ∧ c.length = 4 ∧ d.length = 4 ∧ e.length = 12 ∧
    ∀ x ∈ a ++ b ++ c ++ d ++ e, isHexDigit x = true

/-- A text without its hyphens. -/
def withoutHyphens (t : Text) : Text :=
  t.filter (· ≠ '-')

theorem withoutHyphens_of_hex {t : Text} (h : ∀ c ∈ t, isHexDigit c = true) :
    withoutHyphens t = t := by
  refine List.filter_eq_self.mpr fun c hc => ?_
  have hne : c ≠ '-' := by
    rintro rfl
    exact absurd (h _ hc) (by decide)
  simpa using hne

theorem withoutHyphens_hyphenAt (i : Nat) (t : Text) :
    withoutHyphens (hyphenAt i t) = withoutHyphens t := by
  unfold hyphenAt
  split
  · rw [withoutHyphens, List.filter_append, List.filter_cons_of_neg (by decide),
      ← List.filter_append, List.take_append_drop, withoutHyphens]
  · rfl

theorem withoutHyphens_hyphenate (t : Text) : withoutHyphens (hyphenate t) = withoutHyphens t := by
  simp only [hyphenate, withoutHyphens_hyphenAt]

theorem length_of_isUuid {uuid : Text} (h : IsUuid uuid) : (withoutHyphens uuid).length = 32 := by
  obtain ⟨a, b, c, d, e, rfl, ha, hb, hc, hd, he, hhex⟩ := h
  have hstrip : withoutHyphens (a ++ '-' :: (b ++ '-' :: (c ++ '-' :: (d ++ '-' :: e)))) =
      withoutHyphens (a ++ b ++ c ++ d ++ e) := by
    simp [withoutHyphens]
  rw [hstrip, withoutHyphens_of_hex hhex]
  simp only [List.length_append]
  omega

theorem hyphenAt_append {i : Nat} {front back : Text} (h : front.length = i) (hback : back ≠ []) :
    hyphenAt i (front ++ back) = front ++ '-' :: back := by
  have hlong : i < (front ++ back).length := by
    have hpos := List.length_pos_iff.mpr hback
    rw [List.length_append]
    omega
  rw [hyphenAt, if_pos hlong, ← h, List.take_left, List.drop_left]

/-- Thirty-two digits become a UUID. -/
theorem isUuid_hyphenate {t : Text} (hlen : t.length = 32) (hhex : ∀ c ∈ t, isHexDigit c = true) :
    IsUuid (hyphenate t) := by
  have hsplit : ∀ n (s : Text), n ≤ s.length → ∃ front back, s = front ++ back ∧
      front.length = n ∧ back.length = s.length - n := fun n s hn =>
    ⟨s.take n, s.drop n, (List.take_append_drop n s).symm, List.length_take_of_le hn,
      List.length_drop⟩
  obtain ⟨a, t1, rfl, ha, h1⟩ := hsplit 8 t (by omega)
  obtain ⟨b, t2, rfl, hb, h2⟩ := hsplit 4 t1 (by omega)
  obtain ⟨c, t3, rfl, hc, h3⟩ := hsplit 4 t2 (by omega)
  obtain ⟨d, e, rfl, hd, he⟩ := hsplit 4 t3 (by omega)
  have hne : ∀ s : Text, 0 < s.length → s ≠ [] := fun s hs => List.length_pos_iff.mp hs
  refine ⟨a, b, c, d, e, ?_, ha, hb, hc, hd, by omega, by simpa using hhex⟩
  calc hyphenate (a ++ (b ++ (c ++ (d ++ e))))
      = hyphenAt 23 (hyphenAt 18 (hyphenAt 13 (a ++ '-' :: (b ++ (c ++ (d ++ e)))))) := by
        rw [hyphenate, hyphenAt_append ha (hne _ (by omega))]
    _ = hyphenAt 23 (hyphenAt 18 ((a ++ '-' :: b) ++ '-' :: (c ++ (d ++ e)))) := by
        rw [← List.cons_append, ← List.append_assoc, hyphenAt_append _ (hne _ (by omega))]
        simp [ha, hb]
    _ = hyphenAt 23 ((a ++ '-' :: b ++ '-' :: c) ++ '-' :: (d ++ e)) := by
        rw [← List.cons_append, ← List.append_assoc, hyphenAt_append _ (hne _ (by omega))]
        simp [ha, hb, hc]
    _ = (a ++ '-' :: b ++ '-' :: c ++ '-' :: d) ++ '-' :: e := by
        rw [← List.cons_append, ← List.append_assoc, hyphenAt_append _ (hne _ (by omega))]
        simp [ha, hb, hc, hd]
    _ = a ++ '-' :: (b ++ '-' :: (c ++ '-' :: (d ++ '-' :: e))) := by simp

/-! ## The two halves -/

/-- With at most eight leading zeros the half is restored. -/
theorem last32_printed {digits : Text} (hlen : digits.length = 32)
    (hzeros : leadingZeros digits ≤ 8) :
    last32 ("00000000".toList ++ printed digits) = digits := by
  have hsum := leadingZeros_add_length digits
  have hne : significant digits ≠ [] := by
    refine List.length_pos_iff.mp ?_
    omega
  have hfront : digits.takeWhile (· = '0') = List.replicate (leadingZeros digits) '0' :=
    List.eq_replicate_iff.mpr ⟨rfl, fun c hc => by simpa using List.mem_takeWhile_imp hc⟩
  have hdigits : List.replicate (leadingZeros digits) '0' ++ significant digits = digits := by
    rw [← hfront, significant, List.takeWhile_append_dropWhile]
  have hpad : "00000000".toList = List.replicate (8 - leadingZeros digits) '0' ++
      List.replicate (leadingZeros digits) '0' := by
    rw [List.replicate_append_replicate, Nat.sub_add_cancel hzeros]
    rfl
  have hlong : 32 ≤ ("00000000".toList ++ significant digits).length := by
    rw [List.length_append]
    change 32 ≤ 8 + _
    omega
  rw [printed, if_neg hne, last32, if_pos hlong, hpad, List.append_assoc, hdigits,
    List.length_append, List.length_replicate, hlen, Nat.add_sub_cancel]
  exact List.drop_left' (List.length_replicate ..)

/-- With more than eight leading zeros there are too few digits. -/
theorem length_short {digits : Text} (hlen : digits.length = 32)
    (hzeros : 8 < leadingZeros digits) :
    ("00000000".toList ++ printed digits).length < 32 := by
  have hsum := leadingZeros_add_length digits
  rw [List.length_append, printed]
  change 8 + _ < 32
  split
  · decide
  · omega

/-- The UUID of a half is well formed exactly when the half starts with at most eight zeros, and
then it contains the half. -/
theorem halfUuid_spec (rootHash : RootHash) (operator : Char) :
    (IsUuid (halfUuid rootHash operator) ↔ leadingZeros (halfDigits rootHash operator) ≤ 8) ∧
      (leadingZeros (halfDigits rootHash operator) ≤ 8 →
        withoutHyphens (halfUuid rootHash operator) = halfDigits rootHash operator) := by
  have hlen := length_halfDigits rootHash operator
  have hhex := hex_halfDigits rootHash operator
  by_cases hzeros : leadingZeros (halfDigits rootHash operator) ≤ 8
  · have huuid : halfUuid rootHash operator = hyphenate (halfDigits rootHash operator) := by
      rw [halfUuid, uuidText, last32_printed hlen hzeros]
    rw [huuid, withoutHyphens_hyphenate]
    exact ⟨iff_of_true (isUuid_hyphenate hlen hhex) hzeros, fun _ => withoutHyphens_of_hex hhex⟩
  · have hshort := length_short hlen (Nat.lt_of_not_le hzeros)
    refine ⟨iff_of_false (fun huuid => ?_) hzeros, fun h => absurd h hzeros⟩
    have hlength := length_of_isUuid huuid
    rw [halfUuid, uuidText, withoutHyphens_hyphenate, last32, if_neg (Nat.not_le.mpr hshort)]
      at hlength
    have hle := List.length_filter_le (· ≠ '-')
      ("00000000".toList ++ printed (halfDigits rootHash operator))
    rw [withoutHyphens] at hlength
    omega

end MetaSecurity.Verity
