import MetaSecurity.Library.Records
import MetaSecurity.Library.Shell.Variables

/-!
# Lines as Perl reads them

`<HANDLE>` gives a line with its newline, and the last line of a file may lack one. A loop
`while ($line = <HANDLE>)` sees every line, because Perl tests whether the line is defined; a loop
`while ($line = shift @lines)` tests whether the line is true, and stops at a last line `0` that has
no newline. Numeric comparisons of strings of digits are exact as long as the numbers are small.
-/

namespace Perl

open Library Shell

/-- The lines of a file, each with its newline. -/
def lines (t : Text) : List Text :=
  (records '\n' t).map (fun line => line ++ ['\n']) ++
    if remainder '\n' t = [] then [] else [remainder '\n' t]

/-- A string counts as true unless it is empty or `0`. -/
def truthy (line : Text) : Bool :=
  line ≠ [] && line ≠ ['0']

/-- The lines that `while ($line = shift @lines)` sees. -/
def shifted (ls : List Text) : List Text :=
  ls.takeWhile truthy

/-- Without its newline. -/
def chomp (line : Text) : Text :=
  if line.getLast? = some '\n' then line.dropLast else line

/-- The order of `sort`: by the codes of the characters, a prefix first. -/
def sortsBefore : Text → Text → Bool
  | [], _ => true
  | _ :: _, [] => false
  | c :: cs, d :: ds => c.toNat < d.toNat || (c = d && sortsBefore cs ds)

/-- The number that a string of digits is in a numeric comparison; what stands behind the digits is
left out. Blanks and a sign before them, or a fraction and an exponent behind them, which perl reads
as well, are not expected here. -/
def number (t : Text) : Nat :=
  Nat.ofDigitChars 10 (t.takeWhile Char.isDigit) 0

/-- `split`: empty fields at the end are left out. -/
def split (sep : Char) (t : Text) : List Text :=
  (t.splitOn sep).rdropWhile (·.isEmpty)

/-- `/^\d+$/`, which also matches before a newline at the end. -/
def isNumber (t : Text) : Bool :=
  chomp t ≠ [] && (chomp t).all Char.isDigit

/-- `/^\D+$/`. -/
def isWord (t : Text) : Bool :=
  t ≠ [] && t.all fun c => !c.isDigit

/-- `<=>` on strings of digits. A number of up to 53 bits is exact in every build of Perl; a larger
one may be taken as a floating-point number. -/
structure Numeric where
  compare : Text → Text → Ordering
  swap : ∀ a b, compare b a = (compare a b).swap
  exact : ∀ {a b}, number a < 2 ^ 53 → number b < 2 ^ 53 →
    compare a b = Ord.compare (number a) (number b)

/-- The file ends with a newline, or it is empty. -/
def Terminated (t : Text) : Prop :=
  remainder '\n' t = []

instance (t : Text) : Decidable (Terminated t) :=
  inferInstanceAs (Decidable (_ = _))

@[simp] theorem lines_nil : lines [] = [] := by
  simp [lines]

theorem lines_append_cons {line : Text} (h : '\n' ∉ line) (t : Text) :
    lines (line ++ '\n' :: t) = (line ++ ['\n']) :: lines t := by
  simp [lines, records_append_cons h, remainder_append_cons h]

theorem lines_of_not_mem {t : Text} (h : '\n' ∉ t) : lines t = if t = [] then [] else [t] := by
  simp [lines, records_of_not_mem h, remainder_of_not_mem h]

@[simp] theorem terminated_nil : Terminated [] := remainder_nil

/-- The lines make up the file. -/
@[simp] theorem flatten_lines (t : Text) : (lines t).flatten = t := by
  induction t using recordsInduction '\n' with
  | remainder t h =>
      rw [lines_of_not_mem h]
      split <;> simp_all
  | record line t h ih => simp [lines_append_cons h, ih]

/-- In a terminated file every line has its newline. -/
theorem exists_of_mem_lines {t line : Text} (ht : Terminated t) (h : line ∈ lines t) :
    ∃ r, '\n' ∉ r ∧ line = r ++ ['\n'] := by
  have hempty : remainder '\n' t = [] := ht
  simp only [lines, hempty, if_true, List.append_nil, List.mem_map] at h
  obtain ⟨r, hr, rfl⟩ := h
  exact ⟨r, not_mem_of_mem_records hr, rfl⟩

@[simp] theorem truthy_append_newline (r : Text) : truthy (r ++ ['\n']) = true := by
  cases r <;> simp [truthy]

/-- No line of a terminated file is lost in a `shift` loop. -/
theorem shifted_lines {t : Text} (h : Terminated t) : shifted (lines t) = lines t := by
  refine List.takeWhile_eq_self_iff.mpr fun line hline => ?_
  obtain ⟨r, -, rfl⟩ := exists_of_mem_lines h hline
  exact truthy_append_newline r

@[simp] theorem chomp_append_newline (r : Text) : chomp (r ++ ['\n']) = r := by
  simp [chomp]

/-- A line that has been read contains no newline once it is chomped. -/
theorem newline_not_mem_chomp {t line : Text} (h : line ∈ lines t) : '\n' ∉ chomp line := by
  rcases List.mem_append.mp h with hrecord | hremainder
  · obtain ⟨r, hr, rfl⟩ := List.mem_map.mp hrecord
    rw [chomp_append_newline]
    exact not_mem_of_mem_records hr
  · split at hremainder
    · simp at hremainder
    · have hfree : '\n' ∉ remainder '\n' t := not_mem_remainder t
      rw [List.mem_singleton.mp hremainder, chomp]
      split
      next hlast => exact absurd (List.mem_of_getLast? hlast) hfree
      · exact hfree

theorem number_decimal (n : Nat) : number (decimal n) = n := by
  have hdigits : (decimal n).takeWhile Char.isDigit = decimal n :=
    List.takeWhile_eq_self_iff.mpr fun _ hc => isDigit_of_mem_decimal hc
  rw [number, hdigits, decimal, Nat.ofDigitChars_ten_toDigits]

/-! ## Strings of digits -/

theorem split_of_not_mem {sep : Char} {t : Text} (hne : t ≠ []) (h : sep ∉ t) :
    split sep t = [t] := by
  rw [split, List.splitOn_eq_singleton h, List.rdropWhile_singleton]
  simp [hne]

/-- The first field begins as the string does. -/
theorem split_cons_of_ne {sep c : Char} (h : c ≠ sep) (t : Text) :
    ∃ field rest, split sep (c :: t) = (c :: field) :: rest := by
  obtain ⟨field, rest, hsplit⟩ := List.exists_cons_of_ne_nil (List.splitOn_ne_nil sep t)
  have hcons : (c :: t).splitOn sep = (c :: field) :: rest := by
    rw [List.splitOn_cons_eq_if_modifyHead, if_neg (by simpa using h), hsplit]
    rfl
  cases hdrop : split sep (c :: t) with
  | nil =>
      have hempty := List.rdropWhile_eq_nil_iff.mp hdrop (c :: field) (hcons ▸ List.mem_cons_self)
      cases hempty
  | cons first others =>
      have hfields : first :: others <+: (c :: t).splitOn sep :=
        hdrop ▸ List.rdropWhile_prefix _ _
      rw [hcons, List.cons_prefix_cons] at hfields
      exact ⟨field, others, by rw [hfields.1]⟩

theorem infix_of_mem_splitOn {sep : Char} {t field : Text} (h : field ∈ t.splitOn sep) :
    field <:+: t := by
  have hinfix := infix_intercalate h [sep]
  rwa [List.intercalate_splitOn] at hinfix

/-- A field is a part of the string. -/
theorem infix_of_mem_split {sep : Char} {t field : Text} (h : field ∈ split sep t) :
    field <:+: t :=
  infix_of_mem_splitOn ((List.rdropWhile_prefix _ _).subset h)

/-- There is no separator in a field. -/
theorem not_mem_of_mem_splitOn {sep : Char} {t field : Text} (h : field ∈ t.splitOn sep) :
    sep ∉ field := by
  induction t generalizing field with
  | nil =>
      rw [List.splitOn_eq_singleton List.not_mem_nil, List.mem_singleton] at h
      rw [h]
      exact List.not_mem_nil
  | cons c t ih =>
      rw [List.splitOn_cons_eq_if_modifyHead] at h
      split at h
      · rcases List.mem_cons.mp h with rfl | h
        · exact List.not_mem_nil
        · exact ih h
      next hc =>
        obtain ⟨first, rest, hsplit⟩ := List.exists_cons_of_ne_nil (List.splitOn_ne_nil sep t)
        rw [hsplit, List.modifyHead_cons] at h
        rcases List.mem_cons.mp h with rfl | h
        · have hfirst := @ih first (hsplit ▸ List.mem_cons_self)
          have hne : sep ≠ c := fun heq => hc (by simp [heq])
          exact fun hmem => (List.mem_cons.mp hmem).elim hne hfirst
        · exact ih (hsplit ▸ List.mem_cons_of_mem first h)

theorem Numeric.self (numeric : Numeric) (t : Text) : numeric.compare t t = .eq := by
  have hswap := numeric.swap t t
  cases h : numeric.compare t t <;> simp [h] at hswap ⊢

theorem isWord_iff {t : Text} : isWord t = true ↔ t ≠ [] ∧ ∀ c ∈ t, c.isDigit = false := by
  simp [isWord]

theorem chomp_of_not_mem {t : Text} (h : '\n' ∉ t) : chomp t = t := by
  rw [chomp, if_neg fun hlast => h (List.mem_of_getLast? hlast)]

theorem isNumber_iff {t : Text} (h : '\n' ∉ t) :
    isNumber t = true ↔ t ≠ [] ∧ ∀ c ∈ t, c.isDigit = true := by
  simp [isNumber, chomp_of_not_mem h]

/-- A number begins with a digit. -/
theorem isDigit_head_of_isNumber {c : Char} {t : Text} (h : isNumber (c :: t) = true) :
    c.isDigit = true := by
  rw [isNumber, Bool.and_eq_true, List.all_eq_true, decide_eq_true_eq] at h
  obtain ⟨hne, hall⟩ := h
  refine hall c ?_
  rw [chomp] at hne ⊢
  split at hne
  · cases t with
    | nil => exact absurd rfl hne
    | cons d t => simp_all
  · simp_all

theorem isNumber_of_digits {t : Text} (hne : t ≠ []) (h : ∀ c ∈ t, c.isDigit = true) :
    isNumber t = true :=
  (isNumber_iff fun hmem => absurd (h _ hmem) (by decide)).mpr ⟨hne, h⟩

theorem isNumber_cons_of_not_digit {c : Char} (h : c.isDigit = false) (t : Text) :
    isNumber (c :: t) = false := by
  by_contra hnumber
  rw [isDigit_head_of_isNumber (by simpa using hnumber)] at h
  cases h

theorem isWord_cons_of_digit {c : Char} (h : c.isDigit = true) (t : Text) :
    isWord (c :: t) = false := by
  by_contra hword
  rw [(isWord_iff.mp (by simpa using hword)).2 c List.mem_cons_self] at h
  cases h

theorem number_of_digits {t : Text} (h : ∀ c ∈ t, c.isDigit = true) :
    number t = Nat.ofDigitChars 10 t 0 := by
  rw [number, List.takeWhile_eq_self_iff.mpr h]

theorem digitChar_of_isDigit {c : Char} (h : c.isDigit = true) :
    c.toNat - 48 < 10 ∧ (c.toNat - 48).digitChar = c := by
  have hc : 48 ≤ c.toNat ∧ c.toNat ≤ 57 := Char.isDigit_iff_toNat.mp h
  refine ⟨by omega, Char.toNat_inj.mp ?_⟩
  rw [Nat.toNat_digitChar_of_lt_ten (by omega)]
  omega

theorem ofDigitChars_lt {t : Text} (h : ∀ c ∈ t, c.isDigit = true) :
    Nat.ofDigitChars 10 t 0 < 10 ^ t.length := by
  induction t with
  | nil => simp
  | cons c t ih =>
      have hlt := ih fun d hd => h d (List.mem_cons_of_mem _ hd)
      have hc := (digitChar_of_isDigit (h c List.mem_cons_self)).1
      rw [Nat.ofDigitChars_cons, Nat.ofDigitChars_eq_ofDigitChars_zero, List.length_cons,
        Nat.pow_succ]
      show 10 ^ t.length * (10 * 0 + (c.toNat - 48)) + Nat.ofDigitChars 10 t 0 < _
      have hmul : 10 ^ t.length * (c.toNat - 48) ≤ 10 ^ t.length * 9 :=
        Nat.mul_le_mul_left _ (by omega)
      rw [Nat.mul_zero, Nat.zero_add]
      omega

/-- The decimal digits of a number go on with the digits that follow. -/
theorem toDigits_ofDigitChars {t : Text} (h : ∀ c ∈ t, c.isDigit = true) {n : Nat} (hn : 0 < n) :
    Nat.toDigits 10 (Nat.ofDigitChars 10 t n) = Nat.toDigits 10 n ++ t := by
  induction t generalizing n with
  | nil => simp
  | cons c t ih =>
      obtain ⟨hlt, hchar⟩ := digitChar_of_isDigit (h c List.mem_cons_self)
      have hstep : Nat.toDigits 10 (10 * n + (c.toNat - 48)) = Nat.toDigits 10 n ++ [c] := by
        rw [← Nat.toDigits_append_toDigits (by decide) hn hlt, Nat.toDigits_of_lt_base hlt, hchar]
      rw [Nat.ofDigitChars_cons]
      show Nat.toDigits 10 (Nat.ofDigitChars 10 t (10 * n + (c.toNat - 48))) = _
      rw [ih (fun d hd => h d (List.mem_cons_of_mem _ hd)) (by omega), hstep, List.append_assoc,
        List.singleton_append]

/-- Before another character, digits are a number of their own. -/
theorem number_decimal_append {n : Nat} {c : Char} (h : c.isDigit = false) (t : Text) :
    number (decimal n ++ c :: t) = n := by
  have hdigits : (decimal n ++ c :: t).takeWhile Char.isDigit = decimal n := by
    rw [List.takeWhile_append_of_pos fun _ hd => isDigit_of_mem_decimal hd,
      List.takeWhile_cons_of_neg (by simp [h]), List.append_nil]
  rw [number, hdigits, decimal, Nat.ofDigitChars_ten_toDigits]

/-- A number other than zero does not begin with a zero. -/
theorem head_decimal {n : Nat} (h : 0 < n) : (decimal n).head? ≠ some '0' := by
  intro hhead
  obtain ⟨t, ht⟩ := List.head?_eq_some_iff.mp hhead
  have hvalue : Nat.ofDigitChars 10 t 0 = n := by
    have hn : Nat.ofDigitChars 10 (decimal n) 0 = n := Nat.ofDigitChars_ten_toDigits
    rwa [ht, Nat.ofDigitChars_cons] at hn
  cases t with
  | nil => exact absurd hvalue (by simp; omega)
  | cons c t =>
      have hdigits : ∀ d ∈ c :: t, d.isDigit = true := fun d hd =>
        isDigit_of_mem_decimal (n := n) (by rw [ht]; exact List.mem_cons_of_mem _ hd)
      have hlt : Nat.ofDigitChars 10 (c :: t) 0 < 10 ^ (c :: t).length :=
        ofDigitChars_lt hdigits
      have hlen : (Nat.toDigits 10 n).length ≤ (c :: t).length :=
        (Nat.length_toDigits_le_iff (by decide) (by simp)).mpr (hvalue ▸ hlt)
      have hcons : (Nat.toDigits 10 n).length = (c :: t).length + 1 := congrArg List.length ht
      omega

/-- Digits that do not begin with a zero are the decimal digits of their number. -/
theorem decimal_number {c : Char} {t : Text} (h : ∀ d ∈ c :: t, d.isDigit = true) (hc : c ≠ '0') :
    decimal (number (c :: t)) = c :: t := by
  obtain ⟨hlt, hchar⟩ := digitChar_of_isDigit (h c List.mem_cons_self)
  have hpos : 0 < c.toNat - 48 := by
    have hdigit : 48 ≤ c.toNat ∧ c.toNat ≤ 57 := Char.isDigit_iff_toNat.mp (h c List.mem_cons_self)
    have hne : c.toNat ≠ 48 := fun heq => hc (Char.toNat_inj.mp heq)
    omega
  rw [number_of_digits h, decimal, Nat.ofDigitChars_cons]
  show Nat.toDigits 10 (Nat.ofDigitChars 10 t (10 * 0 + (c.toNat - 48))) = _
  rw [Nat.mul_zero, Nat.zero_add,
    toDigits_ofDigitChars (fun d hd => h d (List.mem_cons_of_mem _ hd)) hpos,
    Nat.toDigits_of_lt_base hlt, hchar, List.singleton_append]

end Perl
