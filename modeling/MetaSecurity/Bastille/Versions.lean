import MetaSecurity.Library.Perl
import MetaSecurity.Library.Runs

/-!
# Comparing versions

`cmp_vers_part` splits two versions at the dots and compares their minors from left to right. Where
a minor has digits and other characters, it is taken apart on the way. In the end the versions are
compared by their runs of digits and of other characters, as words are in a dictionary. Two
different words of more than one character have no order: the first version counts as the older one,
whichever it is.
-/

namespace MetaSecurity.Bastille

open Library Shell Perl

/-! ## The algorithm -/

/-- `/^pre/`. -/
def isPre (v : Text) : Bool :=
  "pre".toList.isPrefixOf v

/-- `s/^pre(\d+.*)$/$1/`, if it matches. -/
def withoutPre (v : Text) : Option Text :=
  let rest := v.drop 3
  if isPre v && rest.head?.any Char.isDigit && !(chomp rest).contains '\n' then some rest else none

/-- The minors. One that is missing in front of a dot counts as zero. -/
def minors (v : Text) : List Text :=
  match split '.' v with
  | [] => if v = [] then [] else [['0']]
  | minor :: rest => (if minor = [] then ['0'] else minor) :: rest

/-- The branches of the loop that compare two minors; the last one splits them. An answer other than
`.eq` is returned. -/
def compareMinor (numeric : Numeric) (a b : Text) : Option Ordering :=
  if isNumber a && isNumber b then
    some (if (a.head? = some '0' || b.head? = some '0') && a ≠ b then compare a b
      else numeric.compare a b)
  else if isWord a && isWord b then
    some (if a.length = 1 && b.length = 1 then compare a b else if a = b then .eq else .lt)
  else if isNumber a && isWord b then some .gt
  else if isWord a && isNumber b then some .lt
  else none

/-- Two numbers are compared as strings if one of them begins with a zero. -/
theorem compareMinor_numbers {numeric : Numeric} {a b : Text} (ha : isNumber a = true)
    (hb : isNumber b = true) : compareMinor numeric a b =
      some (if (a.head? = some '0' ∨ b.head? = some '0') ∧ a ≠ b then compare a b
        else numeric.compare a b) := by
  simp only [compareMinor, ha, hb, Bool.and_self, if_true, Bool.and_eq_true, Bool.or_eq_true,
    decide_eq_true_eq]

/-- How much there still is to be compared. -/
def weight (as : List Text) : Nat :=
  (as.map fun a => 2 * a.length - 1).sum

@[simp] theorem weight_nil : weight [] = 0 := rfl

@[simp] theorem weight_cons (a : Text) (as : List Text) :
    weight (a :: as) = 2 * a.length - 1 + weight as := rfl

@[simp] theorem weight_append (as bs : List Text) : weight (as ++ bs) = weight as + weight bs := by
  simp [weight]

/-- Taking a list of characters apart makes it lighter. -/
theorem weight_eq {as : List Text} (h : ∀ a ∈ as, a ≠ []) :
    weight as + as.length = 2 * as.flatten.length := by
  induction as with
  | nil => rfl
  | cons a as ih =>
      have ha : 0 < a.length := List.length_pos_iff.mpr (h a List.mem_cons_self)
      have has := ih fun b hb => h b (List.mem_cons_of_mem _ hb)
      simp only [weight_cons, List.length_cons, List.flatten_cons, List.length_append]
      omega

theorem weight_cut (a : Text) :
    weight (cut Char.isDigit a) + (cut Char.isDigit a).length = 2 * a.length := by
  rw [weight_eq fun part hpart => ne_nil_of_mem_cut _ hpart, flatten_cut]

/-- What is neither a number nor a word has digits and other characters. -/
theorem mixed {a : Text} (hne : a ≠ []) (hnumber : isNumber a = false) (hword : isWord a = false) :
    2 ≤ (cut Char.isDigit a).length := by
  have hdigit : ∃ c ∈ a, c.isDigit = true := by
    simpa [isWord, hne] using hword
  have hother : ∃ c ∈ a, c.isDigit = false := by
    by_contra hall
    rw [isNumber_of_digits hne (by simpa using hall)] at hnumber
    cases hnumber
  obtain ⟨c, hc, hdigit⟩ := hdigit
  obtain ⟨d, hd, hother⟩ := hother
  exact two_le_length_cut _ hc hd hdigit hother

/-- Minors are split only if one of them is neither a number nor a word. -/
theorem compareMinor_eq_none {numeric : Numeric} {a b : Text}
    (h : compareMinor numeric a b = none) :
    (isNumber a = false ∧ isWord a = false) ∨ (isNumber b = false ∧ isWord b = false) := by
  cases hna : isNumber a <;> cases hwa : isWord a <;> cases hnb : isNumber b <;>
    cases hwb : isWord b <;> simp [compareMinor, hna, hwa, hnb, hwb] at h ⊢

/-- Where two minors are split, something has come apart. -/
theorem weight_cut_lt {numeric : Numeric} {a b : Text} (ha : a ≠ []) (hb : b ≠ [])
    (h : compareMinor numeric a b = none) :
    weight (cut Char.isDigit a) + weight (cut Char.isDigit b) < weight [a] + weight [b] := by
  have hweight := weight_cut a
  have hweight' := weight_cut b
  have hpos : 0 < (cut Char.isDigit a).length ∧ 0 < (cut Char.isDigit b).length := by
    constructor <;> rw [List.length_pos_iff] <;> intro hnil
    · exact ha (by rw [← flatten_cut Char.isDigit a, hnil, List.flatten_nil])
    · exact hb (by rw [← flatten_cut Char.isDigit b, hnil, List.flatten_nil])
  have htwo : 2 ≤ (cut Char.isDigit a).length ∨ 2 ≤ (cut Char.isDigit b).length :=
    (compareMinor_eq_none h).imp (fun hmixed => mixed ha hmixed.1 hmixed.2) fun hmixed =>
      mixed hb hmixed.1 hmixed.2
  have hlen : 0 < a.length ∧ 0 < b.length :=
    ⟨List.length_pos_iff.mpr ha, List.length_pos_iff.mpr hb⟩
  simp only [weight_cons, weight_nil]
  omega

/-- The loop, with `$a` and `$b` in front of what is left of the minors. It does not tell an empty
minor from one that is missing. -/
def compareMinors (numeric : Numeric) : List Text → List Text → Ordering
  | [], [] => .eq
  | [], b :: _ => if b = [] then .eq else .lt
  | a :: _, [] => if a = [] then .eq else .gt
  | a :: as, b :: bs =>
    if a = [] then if b = [] then .eq else .lt
    else if b = [] then .gt
    else
      match _hsplit : compareMinor numeric a b with
      | some .eq => compareMinors numeric as bs
      | some answer => answer
      | none => compareMinors numeric (cut Char.isDigit a ++ as) (cut Char.isDigit b ++ bs)
termination_by as bs => weight as + weight bs
decreasing_by
  · have hlen : 0 < a.length := List.length_pos_iff.mpr ‹_›
    simp only [weight_cons]
    omega
  · have hlt := weight_cut_lt ‹¬ a = []› ‹¬ b = []› _hsplit
    simp only [weight_cons, weight_nil, weight_append] at hlt ⊢
    omega

/-- `cmp_vers_part`: -1, 0 and 1 are `.lt`, `.eq` and `.gt`. -/
def cmpVersPart (numeric : Numeric) (va vb : Text) : Ordering :=
  match withoutPre va, withoutPre vb with
  | some rest, _ =>
    if isPre vb then compareMinors numeric (minors va) (minors vb)
    else if rest = vb then .lt
    else compareMinors numeric (minors rest) (minors vb)
  | none, some rest =>
    if isPre va then compareMinors numeric (minors va) (minors vb)
    else if va = rest then .gt
    else compareMinors numeric (minors va) (minors rest)
  | none, none => compareMinors numeric (minors va) (minors vb)

/-! ## Versions as lists of runs -/

/-- The runs of the minors in front of the first one that is empty. -/
def versionRuns (as : List Text) : List Text :=
  (as.takeWhile fun a => !a.isEmpty).flatMap (runs Char.isDigit)

/-- How two runs compare. -/
def compareRun (numeric : Numeric) (a b : Text) : Ordering :=
  (compareMinor numeric a b).getD .eq

@[simp] theorem versionRuns_nil : versionRuns [] = [] := rfl

@[simp] theorem versionRuns_cons_nil (as : List Text) : versionRuns ([] :: as) = [] := rfl

theorem versionRuns_cons {a : Text} (h : a ≠ []) (as : List Text) :
    versionRuns (a :: as) = runs Char.isDigit a ++ versionRuns as := by
  rw [versionRuns, List.takeWhile_cons_of_pos (by simp [h]), List.flatMap_cons]
  rfl

theorem exists_versionRuns_cons {a : Text} (h : a ≠ []) (as : List Text) :
    ∃ run rest, versionRuns (a :: as) = run :: rest := by
  obtain ⟨run, rest, hruns⟩ := List.exists_cons_of_ne_nil (runs_ne_nil (p := Char.isDigit) h)
  exact ⟨run, rest ++ versionRuns as, by rw [versionRuns_cons h, hruns, List.cons_append]⟩

theorem versionRuns_cut (a : Text) (as : List Text) :
    versionRuns (cut Char.isDigit a ++ as) = runs Char.isDigit a ++ versionRuns as := by
  have hfull : ∀ part ∈ cut Char.isDigit a, (!part.isEmpty) = true := fun part hpart => by
    simpa using ne_nil_of_mem_cut _ hpart
  rw [versionRuns, List.takeWhile_append_of_pos hfull, List.flatMap_append, flatMap_runs_cut]
  rfl

theorem runs_number {a : Text} (hnewline : '\n' ∉ a) (h : isNumber a = true) :
    runs Char.isDigit a = [a] := by
  obtain ⟨hne, hdigits⟩ := (isNumber_iff hnewline).mp h
  exact runs_eq_singleton hne hdigits

theorem runs_word {a : Text} (h : isWord a = true) : runs Char.isDigit a = [a] := by
  obtain ⟨hne, hother⟩ := isWord_iff.mp h
  exact runs_eq_singleton hne hother

/-- Minors that are compared are runs. -/
theorem runs_of_compareMinor {numeric : Numeric} {a b : Text} {answer : Ordering}
    (ha : '\n' ∉ a) (hb : '\n' ∉ b) (h : compareMinor numeric a b = some answer) :
    runs Char.isDigit a = [a] ∧ runs Char.isDigit b = [b] := by
  have hkinds : (isNumber a = true ∨ isWord a = true) ∧ (isNumber b = true ∨ isWord b = true) := by
    cases hna : isNumber a <;> cases hwa : isWord a <;> cases hnb : isNumber b <;>
      cases hwb : isWord b <;> simp [compareMinor, hna, hwa, hnb, hwb] at h ⊢
  exact ⟨hkinds.1.elim (runs_number ha) runs_word, hkinds.2.elim (runs_number hb) runs_word⟩

/-- The loop compares the lists of runs as words are compared in a dictionary. -/
theorem compareMinors_eq (numeric : Numeric) {as bs : List Text} (has : ∀ a ∈ as, '\n' ∉ a)
    (hbs : ∀ b ∈ bs, '\n' ∉ b) :
    compareMinors numeric as bs =
      (versionRuns as).compareLex (compareRun numeric) (versionRuns bs) := by
  fun_induction compareMinors numeric as bs with
  | case1 | case2 | case4 | case6 => rfl
  | case3 b bs hb =>
      obtain ⟨run, rest, hruns⟩ := exists_versionRuns_cons hb bs
      rw [hruns, versionRuns_nil, List.compareLex_nil_cons]
  | case5 a as ha =>
      obtain ⟨run, rest, hruns⟩ := exists_versionRuns_cons ha as
      rw [hruns, versionRuns_nil, List.compareLex_cons_nil]
  | case7 as b bs hb =>
      obtain ⟨run, rest, hruns⟩ := exists_versionRuns_cons hb bs
      rw [hruns, versionRuns_cons_nil, List.compareLex_nil_cons]
  | case8 a as bs ha =>
      obtain ⟨run, rest, hruns⟩ := exists_versionRuns_cons ha as
      rw [hruns, versionRuns_cons_nil, List.compareLex_cons_nil]
  | case9 a as b bs ha hb hsplit ih =>
      -- the minors are equal, so that the loop goes on
      obtain ⟨hruns, hruns'⟩ := runs_of_compareMinor (has a List.mem_cons_self)
        (hbs b List.mem_cons_self) hsplit
      rw [versionRuns_cons ha, versionRuns_cons hb, hruns, hruns', List.singleton_append,
        List.singleton_append, List.compareLex_cons_cons, compareRun, hsplit,
        ih (fun c hc => has c (List.mem_cons_of_mem _ hc)) fun c hc =>
          hbs c (List.mem_cons_of_mem _ hc)]
      rfl
  | case10 a as b bs ha hb answer hanswer hsplit =>
      obtain ⟨hruns, hruns'⟩ := runs_of_compareMinor (has a List.mem_cons_self)
        (hbs b List.mem_cons_self) hsplit
      rw [versionRuns_cons ha, versionRuns_cons hb, hruns, hruns', List.singleton_append,
        List.singleton_append, List.compareLex_cons_cons, compareRun, hsplit, Option.getD_some]
      cases answer with
      | eq => exact absurd rfl hanswer
      | lt | gt => rfl
  | case11 a as b bs ha hb hsplit ih =>
      -- splitting the minors does not change the runs
      have hcut : ∀ {c : Text} {cs : List Text}, (∀ d ∈ c :: cs, '\n' ∉ d) →
          ∀ d ∈ cut Char.isDigit c ++ cs, '\n' ∉ d := by
        intro c cs hcs d hd hmem
        rcases List.mem_append.mp hd with hd | hd
        · refine hcs c List.mem_cons_self ?_
          rw [← flatten_cut Char.isDigit c]
          exact List.mem_flatten_of_mem hd hmem
        · exact hcs d (List.mem_cons_of_mem _ hd) hmem
      rw [ih (hcut has) (hcut hbs), versionRuns_cut, versionRuns_cut, versionRuns_cons ha,
        versionRuns_cons hb]

/-! ## Swapping two versions -/

/-- One of the strings has a run of two characters at least without digits. -/
def LongRun (as : List Text) : Prop :=
  ∃ word, isWord word = true ∧ 1 < word.length ∧ ∃ a ∈ as, word <:+: a

theorem LongRun.mono {as bs : List Text} (h : LongRun as)
    (hsub : ∀ a ∈ as, ∀ word, 1 < word.length → word <:+: a → ∃ b ∈ bs, word <:+: b) :
    LongRun bs := by
  obtain ⟨word, hword, hlen, a, ha, hinfix⟩ := h
  obtain ⟨b, hb, hinfix'⟩ := hsub a ha word hlen hinfix
  exact ⟨word, hword, hlen, b, hb, hinfix'⟩

theorem LongRun.subset {as bs : List Text} (h : LongRun as) (hsub : as ⊆ bs) : LongRun bs :=
  h.mono fun a ha _ _ hinfix => ⟨a, hsub ha, hinfix⟩

/-- One of the versions has a word of two characters at least in a minor, so that no dot stands in
it. -/
def LongWord (va vb : Text) : Prop :=
  ∃ word, isWord word = true ∧ 1 < word.length ∧ '.' ∉ word ∧ (word <:+: va ∨ word <:+: vb)

theorem LongWord.symm {va vb : Text} (h : LongWord va vb) : LongWord vb va := by
  obtain ⟨word, hword, hlen, hdot, hinfix⟩ := h
  exact ⟨word, hword, hlen, hdot, hinfix.symm⟩

/-- Two numbers that are swapped compare the other way round. -/
theorem compareMinor_swap_numbers (numeric : Numeric) {a b : Text} (ha : isNumber a = true)
    (hb : isNumber b = true) :
    compareMinor numeric b a = (compareMinor numeric a b).map Ordering.swap := by
  rw [compareMinor_numbers ha hb, compareMinor_numbers hb ha, Option.map_some]
  by_cases hzero : (a.head? = some '0' ∨ b.head? = some '0') ∧ a ≠ b
  · rw [if_pos hzero, if_pos ⟨hzero.1.symm, hzero.2.symm⟩, Std.OrientedOrd.eq_swap]
  · rw [if_neg hzero, if_neg fun h => hzero ⟨h.1.symm, h.2.symm⟩, numeric.swap]

/-- Two words that are swapped compare the other way round, unless they are different and one of
them is longer than a character. -/
theorem compareMinor_swap_words (numeric : Numeric) {a b : Text} (ha : isWord a = true)
    (hb : isWord b = true) (hna : isNumber a = false) (hnb : isNumber b = false) :
    compareMinor numeric b a = (compareMinor numeric a b).map Ordering.swap ∨
      (compareMinor numeric a b = some .lt ∧ compareMinor numeric b a = some .lt ∧
        LongRun [a, b]) := by
  have hcompare : compareMinor numeric a b =
      some (if a.length = 1 ∧ b.length = 1 then compare a b else if a = b then .eq else .lt) := by
    simp [compareMinor, ha, hb, hna, hnb]
  have hcompare' : compareMinor numeric b a =
      some (if b.length = 1 ∧ a.length = 1 then compare b a else if b = a then .eq else .lt) := by
    simp [compareMinor, ha, hb, hna, hnb]
  rw [hcompare, hcompare']
  by_cases hshort : a.length = 1 ∧ b.length = 1
  · left
    rw [if_pos hshort, if_pos hshort.symm, Option.map_some, Std.OrientedOrd.eq_swap]
  · rw [if_neg hshort, if_neg fun h => hshort h.symm]
    by_cases heq : a = b
    · left
      rw [if_pos heq, if_pos heq.symm]
      rfl
    · right
      have hlen : 1 < a.length ∨ 1 < b.length := by
        have hpos : 0 < a.length := List.length_pos_iff.mpr (isWord_iff.mp ha).1
        have hpos' : 0 < b.length := List.length_pos_iff.mpr (isWord_iff.mp hb).1
        omega
      refine ⟨by rw [if_neg heq], by rw [if_neg (Ne.symm heq)], ?_⟩
      rcases hlen with hlen | hlen
      · exact ⟨a, ha, hlen, a, by simp, List.infix_refl a⟩
      · exact ⟨b, hb, hlen, b, by simp, List.infix_refl b⟩

/-- Two minors that are swapped compare the other way round, unless both answers are -1. -/
theorem compareMinor_swap (numeric : Numeric) {a b : Text} (hne : a ≠ []) (hne' : b ≠ []) :
    compareMinor numeric b a = (compareMinor numeric a b).map Ordering.swap ∨
      (compareMinor numeric a b = some .lt ∧ compareMinor numeric b a = some .lt ∧
        LongRun [a, b]) := by
  have hkinds : ∀ {t : Text}, t ≠ [] → isWord t = true → isNumber t = false := by
    intro t hne hword
    obtain ⟨c, cs, rfl⟩ := List.exists_cons_of_ne_nil hne
    exact isNumber_cons_of_not_digit ((isWord_iff.mp hword).2 c List.mem_cons_self) cs
  cases hwa : isWord a with
  | true =>
      have hna := hkinds hne hwa
      cases hwb : isWord b with
      | true => exact compareMinor_swap_words numeric hwa hwb hna (hkinds hne' hwb)
      | false => cases hnb : isNumber b <;> simp [compareMinor, hwa, hwb, hna, hnb]
  | false =>
      cases hna : isNumber a with
      | false => simp [compareMinor, hwa, hna]
      | true =>
          cases hnb : isNumber b with
          | true => exact Or.inl (compareMinor_swap_numbers numeric hna hnb)
          | false => cases hwb : isWord b <;> simp [compareMinor, hwa, hwb, hna, hnb]

/-- Swapping gives the opposite answer where the first one is not -1. -/
theorem compareMinor_swap_of_ne (numeric : Numeric) {a b : Text} (hne : a ≠ []) (hne' : b ≠ [])
    (hanswer : compareMinor numeric a b ≠ some .lt) :
    compareMinor numeric b a = (compareMinor numeric a b).map Ordering.swap := by
  rcases compareMinor_swap numeric hne hne' with hswap | ⟨hlt, -, -⟩
  · exact hswap
  · exact absurd hlt hanswer

/-- The loop gives the opposite answer for the swapped lists, unless both answers are -1. -/
theorem compareMinors_swap (numeric : Numeric) (as bs : List Text) :
    compareMinors numeric bs as = (compareMinors numeric as bs).swap ∨
      (compareMinors numeric as bs = .lt ∧ compareMinors numeric bs as = .lt ∧
        LongRun (as ++ bs)) := by
  fun_induction compareMinors numeric as bs with
  | case1 | case2 | case4 | case6 => exact Or.inl (by simp [compareMinors])
  | case3 b bs hb => exact Or.inl (by simp [compareMinors, hb])
  | case5 a as ha => exact Or.inl (by simp [compareMinors, ha])
  | case7 as b bs hb => exact Or.inl (by simp [compareMinors, hb])
  | case8 a as bs ha => exact Or.inl (by simp [compareMinors, ha])
  | case9 a as b bs ha hb hsplit ih =>
      have hswap : compareMinor numeric b a = some .eq := by
        rw [compareMinor_swap_of_ne numeric ha hb (by simp [hsplit]), hsplit]
        rfl
      have hback : compareMinors numeric (b :: bs) (a :: as) = compareMinors numeric bs as := by
        rw [compareMinors, if_neg hb, if_neg ha, hswap]
      rw [hback]
      refine ih.imp_right fun ⟨hlt, hlt', hword⟩ => ⟨hlt, hlt', hword.subset ?_⟩
      intro c hc
      rcases List.mem_append.mp hc with hc | hc <;> simp [hc]
  | case10 a as b bs ha hb answer hanswer hsplit =>
      have hback : ∀ answer', answer' ≠ .eq → compareMinor numeric b a = some answer' →
          compareMinors numeric (b :: bs) (a :: as) = answer' := by
        intro answer' hanswer' hswap
        rw [compareMinors, if_neg hb, if_neg ha, hswap]
        cases answer' with
        | eq => exact absurd rfl hanswer'
        | lt | gt => rfl
      rcases compareMinor_swap numeric ha hb with hswap | ⟨hlt, hlt', hword⟩
      · left
        refine hback _ (fun heq => hanswer ?_) (by rw [hswap, hsplit, Option.map_some])
        rw [← Ordering.swap_swap (o := answer), heq]
        rfl
      · right
        rw [hsplit, Option.some_inj] at hlt
        refine ⟨hlt, hback _ (by decide) hlt', hword.subset ?_⟩
        intro c hc
        rcases List.mem_pair.mp hc with rfl | rfl <;> simp
  | case11 a as b bs ha hb hsplit ih =>
      have hswap : compareMinor numeric b a = none := by
        rw [compareMinor_swap_of_ne numeric ha hb (by simp [hsplit]), hsplit]
        rfl
      have hback : compareMinors numeric (b :: bs) (a :: as) =
          compareMinors numeric (cut Char.isDigit b ++ bs) (cut Char.isDigit a ++ as) := by
        rw [compareMinors, if_neg hb, if_neg ha, hswap]
      rw [hback]
      refine ih.imp_right fun ⟨hlt, hlt', hword⟩ => ⟨hlt, hlt', hword.mono ?_⟩
      -- a word in a part of a minor is in the minor
      intro c hc word _ hinfix
      have hpart : ∀ {d : Text}, c ∈ cut Char.isDigit d → word <:+: d := by
        intro d hd
        have hflatten := List.infix_of_mem_flatten hd
        rw [flatten_cut] at hflatten
        exact hinfix.trans hflatten
      simp only [List.mem_append] at hc
      rcases hc with (hc | hc) | (hc | hc)
      · exact ⟨a, by simp, hpart hc⟩
      · exact ⟨c, by simp [hc], hinfix⟩
      · exact ⟨b, by simp, hpart hc⟩
      · exact ⟨c, by simp [hc], hinfix⟩

/-- The minors are parts of the version without a dot. -/
theorem infix_of_mem_minors {v minor : Text} (h : minor ∈ minors v) (hlen : 1 < minor.length) :
    minor <:+: v ∧ '.' ∉ minor := by
  have hzero : minor ≠ ['0'] := by
    intro heq
    rw [heq, List.length_singleton] at hlen
    omega
  have hfield : minor ∈ split '.' v := by
    rw [minors] at h
    cases hsplit : split '.' v with
    | nil =>
        rw [hsplit] at h
        change minor ∈ if v = [] then [] else [['0']] at h
        split at h
        · exact h
        · exact absurd (List.mem_singleton.mp h) hzero
    | cons first rest =>
        rw [hsplit] at h
        by_cases hfirst : first = [] <;> simp_all
  exact ⟨infix_of_mem_split hfield,
    not_mem_of_mem_splitOn ((List.rdropWhile_prefix _ _).subset hfield)⟩

theorem LongRun.of_minors {va vb wa wb : Text} (ha : wa <:+: va) (hb : wb <:+: vb)
    (h : LongRun (minors wa ++ minors wb)) : LongWord va vb := by
  obtain ⟨word, hword, hlen, minor, hmem, hpiece⟩ := h
  have hminor : 1 < minor.length := Nat.lt_of_lt_of_le hlen hpiece.length_le
  rcases List.mem_append.mp hmem with hmem | hmem
  · obtain ⟨hpart, hdot⟩ := infix_of_mem_minors hmem hminor
    exact ⟨word, hword, hlen, fun h => hdot (hpiece.subset h),
      Or.inl ((hpiece.trans hpart).trans ha)⟩
  · obtain ⟨hpart, hdot⟩ := infix_of_mem_minors hmem hminor
    exact ⟨word, hword, hlen, fun h => hdot (hpiece.subset h),
      Or.inr ((hpiece.trans hpart).trans hb)⟩

theorem withoutPre_eq_some {v rest : Text} (h : withoutPre v = some rest) :
    isPre v = true ∧ rest <:+: v := by
  rw [withoutPre] at h
  split at h
  next hpre =>
    simp only [Bool.and_eq_true] at hpre
    rw [← Option.some_inj.mp h]
    exact ⟨hpre.1.1, (List.drop_suffix 3 v).isInfix⟩
  · cases h

/-- The answers for two versions and for the swapped ones. -/
def Opposite (numeric : Numeric) (va vb : Text) : Prop :=
  cmpVersPart numeric vb va = (cmpVersPart numeric va vb).swap ∨
    (cmpVersPart numeric va vb = .lt ∧ cmpVersPart numeric vb va = .lt ∧ LongWord va vb)

theorem opposite_of_minors {numeric : Numeric} {va vb wa wb : Text} (ha : wa <:+: va)
    (hb : wb <:+: vb)
    (h : cmpVersPart numeric va vb = compareMinors numeric (minors wa) (minors wb))
    (h' : cmpVersPart numeric vb va = compareMinors numeric (minors wb) (minors wa)) :
    Opposite numeric va vb := by
  rw [Opposite, h, h']
  exact (compareMinors_swap numeric _ _).imp_right fun ⟨hlt, hlt', hword⟩ =>
    ⟨hlt, hlt', hword.of_minors ha hb⟩

/-- Where one version alone begins with `pre`. -/
theorem opposite_of_pre {numeric : Numeric} {va vb rest : Text} (ha : withoutPre va = some rest)
    (hb : withoutPre vb = none) : Opposite numeric va vb := by
  have hrest := (withoutPre_eq_some ha).2
  by_cases hpre : isPre vb = true
  · exact opposite_of_minors (List.infix_refl va) (List.infix_refl vb)
      (by simp [cmpVersPart, ha, hb, hpre]) (by simp [cmpVersPart, ha, hb, hpre])
  · by_cases heq : rest = vb
    · left
      simp [cmpVersPart, ha, hb, hpre, heq]
    · exact opposite_of_minors hrest (List.infix_refl vb)
        (by simp [cmpVersPart, ha, hb, hpre, heq])
        (by simp [cmpVersPart, ha, hb, hpre, Ne.symm heq])

/-- Swapping two versions gives the opposite answer, unless both answers are -1; and then a minor of
one of the versions has a word of two characters at least. -/
theorem cmpVersPart_swap (numeric : Numeric) (va vb : Text) :
    cmpVersPart numeric vb va = (cmpVersPart numeric va vb).swap ∨
      (cmpVersPart numeric va vb = .lt ∧ cmpVersPart numeric vb va = .lt ∧ LongWord va vb) := by
  show Opposite numeric va vb
  cases ha : withoutPre va with
  | some rest =>
      cases hb : withoutPre vb with
      | none => exact opposite_of_pre ha hb
      | some rest' =>
          have hpre := (withoutPre_eq_some ha).1
          have hpre' := (withoutPre_eq_some hb).1
          exact opposite_of_minors (List.infix_refl va) (List.infix_refl vb)
            (by simp [cmpVersPart, ha, hb, hpre']) (by simp [cmpVersPart, ha, hb, hpre])
  | none =>
      cases hb : withoutPre vb with
      | none =>
          exact opposite_of_minors (List.infix_refl va) (List.infix_refl vb)
            (by rw [cmpVersPart, ha, hb]) (by rw [cmpVersPart, ha, hb])
      | some rest =>
          have hopposite : Opposite numeric vb va := opposite_of_pre hb ha
          rcases hopposite with hswap | ⟨hlt, hlt', hword⟩
          · left
            rw [hswap, Ordering.swap_swap]
          · exact Or.inr ⟨hlt', hlt, hword.symm⟩

end MetaSecurity.Bastille
