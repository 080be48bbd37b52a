import Mathlib.Data.List.DropRight
import Mathlib.Data.Nat.Digits.Defs

/-!
# Hexadecimal numerals as texts

Texts of lower-case hexadecimal digits, the numbers they denote, and how a calculator prints a
number without leading zeros. `toDigits_hexNat` is the round trip: the printed number is the text
without its leading zeros.
-/

namespace Library

/-- The sixteen lower-case hexadecimal digits. -/
def hexAlphabet : List Char :=
  ['0', '1', '2', '3', '4', '5', '6', '7', '8', '9', 'a', 'b', 'c', 'd', 'e', 'f']

/-- A lower-case hexadecimal digit. -/
def isHexDigit (c : Char) : Bool :=
  hexAlphabet.contains c

/-- The value of a digit: its position in the alphabet. -/
def hexDigitValue (c : Char) : Nat :=
  hexAlphabet.idxOf c

/-- The number that a text of digits denotes. -/
def hexNat (t : List Char) : Nat :=
  t.foldl (fun n c => 16 * n + hexDigitValue c) 0

/-- The digits after the leading zeros. -/
def significant (t : List Char) : List Char :=
  t.dropWhile (· = '0')

/-- The number of leading zeros. -/
def leadingZeros (t : List Char) : Nat :=
  (t.takeWhile (· = '0')).length

theorem leadingZeros_add_length (t : List Char) :
    leadingZeros t + (significant t).length = t.length := by
  rw [leadingZeros, significant, ← List.length_append, List.takeWhile_append_dropWhile]

theorem hexNat_append_singleton (t : List Char) (c : Char) :
    hexNat (t ++ [c]) = 16 * hexNat t + hexDigitValue c := by
  simp [hexNat]

/-- A digit is less than sixteen and is printed as itself. -/
theorem hexDigitValue_spec {c : Char} (h : isHexDigit c = true) :
    hexDigitValue c < 16 ∧ Nat.digitChar (hexDigitValue c) = c := by
  have hall : ∀ d ∈ hexAlphabet, hexDigitValue d < 16 ∧ Nat.digitChar (hexDigitValue d) = d :=
    List.forall_iff_forall_mem.mp (by decide)
  exact hall c (by simpa [isHexDigit] using h)

theorem hexNat_append (s t : List Char) :
    hexNat (s ++ t) = hexNat s * 16 ^ t.length + hexNat t := by
  induction t using List.reverseRecOn with
  | nil => simp [hexNat]
  | append_singleton t c ih =>
      rw [← List.append_assoc, hexNat_append_singleton, ih, hexNat_append_singleton]
      simp only [List.length_append, List.length_singleton, pow_succ]
      ring

/-- A text of `n` digits denotes a number below `16 ^ n`. -/
theorem hexNat_lt {t : List Char} (h : ∀ c ∈ t, isHexDigit c = true) :
    hexNat t < 16 ^ t.length := by
  induction t using List.reverseRecOn with
  | nil => simp [hexNat]
  | append_singleton t c ih =>
      have ht := ih fun d hd => h d (by simp [hd])
      have hc := (hexDigitValue_spec (h c (by simp))).1
      rw [hexNat_append_singleton, List.length_append, List.length_singleton, pow_succ]
      omega

/-- The quotient by the weight of the second part is the first part. -/
theorem hexNat_append_div (s : List Char) {t : List Char} (h : ∀ c ∈ t, isHexDigit c = true) :
    hexNat (s ++ t) / 16 ^ t.length = hexNat s := by
  rw [hexNat_append, Nat.mul_comm, Nat.mul_add_div (by positivity),
    Nat.div_eq_of_lt (hexNat_lt h), Nat.add_zero]

/-- The remainder is the second part. -/
theorem hexNat_append_mod (s : List Char) {t : List Char} (h : ∀ c ∈ t, isHexDigit c = true) :
    hexNat (s ++ t) % 16 ^ t.length = hexNat t := by
  rw [hexNat_append, Nat.mul_add_mod', Nat.mod_eq_of_lt (hexNat_lt h)]

/-- Only a text of zeros denotes zero. -/
theorem hexNat_eq_zero_iff {t : List Char} (h : ∀ c ∈ t, isHexDigit c = true) :
    hexNat t = 0 ↔ significant t = [] := by
  induction t using List.reverseRecOn with
  | nil => simp [hexNat, significant]
  | append_singleton t c ih =>
      have hall : ∀ d ∈ hexAlphabet, hexDigitValue d = 0 ↔ d = '0' :=
        List.forall_iff_forall_mem.mp (by decide)
      have hc := hall c (by simpa [isHexDigit] using h c (by simp))
      have ht := ih fun d hd => h d (by simp [hd])
      rw [hexNat_append_singleton]
      simp only [significant, List.dropWhile_eq_nil_iff, List.mem_append, List.mem_singleton]
        at ht ⊢
      simp only [Nat.add_eq_zero_iff, Nat.mul_eq_zero, OfNat.ofNat_ne_zero, false_or, ht, hc,
        decide_eq_true_eq]
      constructor
      · rintro ⟨hzero, rfl⟩ d (hd | rfl)
        · exact hzero d hd
        · rfl
      · exact fun hzero => ⟨fun d hd => hzero d (Or.inl hd), hzero c (Or.inr rfl)⟩

/-- Printing the number of a text gives the text without its leading zeros, and `0` for zero. -/
theorem toDigits_hexNat {t : List Char} (h : ∀ c ∈ t, isHexDigit c = true) :
    Nat.toDigits 16 (hexNat t) = if significant t = [] then ['0'] else significant t := by
  induction t using List.reverseRecOn with
  | nil => simp [hexNat, significant]
  | append_singleton t c ih =>
      have hdigits : ∀ d ∈ t, isHexDigit d = true := fun d hd => h d (by simp [hd])
      obtain ⟨hlt, hchar⟩ := hexDigitValue_spec (h c (by simp))
      have hlast : Nat.toDigits 16 (hexDigitValue c) = [c] := by
        rw [Nat.toDigits_of_lt_base hlt, hchar]
      rw [hexNat_append_singleton]
      by_cases hzero : significant t = []
      · have hnat : hexNat t = 0 := (hexNat_eq_zero_iff hdigits).mpr hzero
        have hsig : significant (t ++ [c]) = significant [c] := by
          simp only [significant, List.dropWhile_eq_nil_iff] at hzero ⊢
          exact List.dropWhile_append_of_pos hzero
        rw [hnat, Nat.mul_zero, Nat.zero_add, hlast, hsig]
        by_cases hc : c = '0' <;> simp [significant, hc]
      · have hpos : 0 < hexNat t :=
          Nat.pos_of_ne_zero fun hnat => hzero ((hexNat_eq_zero_iff hdigits).mp hnat)
        have hsig : significant (t ++ [c]) = significant t ++ [c] := by
          simp only [significant, List.dropWhile_append]
          rw [if_neg (by simpa [significant] using hzero)]
        rw [← Nat.toDigits_append_toDigits (by decide) hpos hlt, hlast, ih hdigits,
          if_neg hzero, hsig, if_neg (by simp)]

end Library
