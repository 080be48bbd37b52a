import MetaSecurity.Bastille.Versions

/-!
# The order of versions

Where no version has a word of more than one character, `cmp_vers_part` puts the versions in a
linear order: characters come before numbers, and numbers that begin with a zero come before the
other ones, as decimals do. Numbers are exact up to 53 bits.
-/

namespace MetaSecurity.Bastille

open Library Shell Perl

/-! ## Values of runs -/

/-- What a run stands for: a character, digits that begin with a zero, or a number. -/
inductive RunValue where
  | letter (c : Char)
  | fraction (digits : Text)
  | whole (n : Nat)
  deriving Repr, DecidableEq

/-- Characters come before digits, and digits that begin with a zero come before other numbers. -/
def RunValue.rank : RunValue → Nat
  | letter _ => 0
  | fraction _ => 1
  | whole _ => 2

def RunValue.text : RunValue → Text
  | letter c => [c]
  | fraction digits => digits
  | whole _ => []

def RunValue.value : RunValue → Nat
  | whole n => n
  | _ => 0

instance : Ord RunValue where
  compare := compareLex (compareOn RunValue.rank)
    (compareLex (compareOn RunValue.text) (compareOn RunValue.value))

instance : Std.TransOrd RunValue :=
  inferInstanceAs (Std.TransCmp (compareLex _ _))

instance : Std.LawfulEqOrd RunValue where
  eq_of_compare {a b} h := by
    obtain ⟨hrank, hrest⟩ := compareLex_eq_eq.mp h
    obtain ⟨htext, hvalue⟩ := compareLex_eq_eq.mp hrest
    have hrank : a.rank = b.rank := Std.LawfulEqOrd.eq_of_compare hrank
    have htext : a.text = b.text := Std.LawfulEqOrd.eq_of_compare htext
    have hvalue : a.value = b.value := Std.LawfulEqOrd.eq_of_compare hvalue
    cases a <;> cases b <;> simp_all [RunValue.rank, RunValue.text, RunValue.value]

theorem compare_runValue (a b : RunValue) : compare a b =
    (compare a.rank b.rank).then ((compare a.text b.text).then (compare a.value b.value)) := rfl

theorem compare_of_rank_lt {a b : RunValue} (h : a.rank < b.rank) : compare a b = .lt := by
  rw [compare_runValue, Nat.compare_eq_lt.mpr h, Ordering.lt_then]

theorem compare_of_rank_gt {a b : RunValue} (h : b.rank < a.rank) : compare a b = .gt := by
  rw [compare_runValue, Nat.compare_eq_gt.mpr h, Ordering.gt_then]

/-- The value of a run. -/
def runValue : Text → RunValue
  | [] => .fraction []
  | c :: cs =>
    if c = '0' then .fraction (c :: cs)
    else if c.isDigit then .whole (number (c :: cs))
    else .letter c

/-! ## Plain versions -/

/-- The run is a number of up to 53 bits or a single character. -/
def isPlainRun (run : Text) : Bool :=
  if run.all Char.isDigit then number run < 2 ^ 53 else run.length = 1

/-- The version has no longer words and no larger numbers. -/
structure Plain (v : Text) : Prop where
  newline : '\n' ∉ v
  pre : isPre v = false
  runs : ∀ run ∈ versionRuns (minors v), isPlainRun run = true

/-- What the comparison goes by. -/
def values (v : Text) : List RunValue :=
  (versionRuns (minors v)).map runValue

theorem not_mem_minors {v : Text} (h : '\n' ∉ v) : ∀ a ∈ minors v, '\n' ∉ a := by
  have hfield : ∀ field ∈ split '.' v, '\n' ∉ field :=
    fun field hfield hmem => h ((infix_of_mem_split hfield).subset hmem)
  intro a ha
  rw [minors] at ha
  cases hsplit : split '.' v with
  | nil =>
      rw [hsplit] at ha
      by_cases hv : v = [] <;> simp [hv] at ha
      rw [ha]
      decide
  | cons first rest =>
      rw [hsplit] at ha hfield
      rcases List.mem_cons.mp ha with rfl | ha
      · by_cases hfirst : first = []
        · rw [if_pos hfirst]
          decide
        · rw [if_neg hfirst]
          exact hfield first List.mem_cons_self
      · exact hfield a (List.mem_cons_of_mem _ ha)

/-- A plain run is a character that is no digit, or a number. -/
theorem plain_run_cases {v run : Text} (h : Plain v) (hrun : run ∈ versionRuns (minors v)) :
    (∃ c, c.isDigit = false ∧ run = [c]) ∨
      (run ≠ [] ∧ (∀ c ∈ run, c.isDigit = true) ∧ number run < 2 ^ 53) := by
  obtain ⟨minor, -, hminor⟩ := List.mem_flatMap.mp hrun
  have hne : run ≠ [] := ne_nil_of_mem_runs hminor
  have hplain := h.runs run hrun
  rw [isPlainRun] at hplain
  rcases all_of_mem_runs hminor with hdigits | hother
  · rw [if_pos (List.all_eq_true.mpr hdigits), decide_eq_true_eq] at hplain
    exact Or.inr ⟨hne, hdigits, hplain⟩
  · obtain ⟨c, cs, hcons⟩ := List.exists_cons_of_ne_nil hne
    have hc : c.isDigit = false := hother c (hcons ▸ List.mem_cons_self)
    rw [if_neg fun hall => by simp [List.all_eq_true.mp hall c (hcons ▸ List.mem_cons_self)] at hc,
      decide_eq_true_eq, hcons, List.length_cons, Nat.add_eq_right, List.length_eq_zero_iff]
      at hplain
    exact Or.inl ⟨c, hc, by rw [hcons, hplain]⟩

theorem runValue_letter {c : Char} (h : c.isDigit = false) : runValue [c] = .letter c := by
  have hne : c ≠ '0' := by
    intro heq
    rw [heq] at h
    exact absurd h (by decide)
  rw [runValue, if_neg hne, if_neg (by simp [h])]

theorem runValue_whole {c : Char} (h : c.isDigit = true) (hne : c ≠ '0') (cs : Text) :
    runValue (c :: cs) = .whole (number (c :: cs)) := by
  rw [runValue, if_neg hne, if_pos h]

theorem runValue_fraction (cs : Text) : runValue ('0' :: cs) = .fraction ('0' :: cs) := by
  rw [runValue, if_pos rfl]

/-- A digit other than zero comes after zero. -/
theorem compare_zero {c : Char} (h : c.isDigit = true) (hne : c ≠ '0') :
    compare '0' c = .lt ∧ compare c '0' = .gt := by
  have hdigit : 48 ≤ c.toNat ∧ c.toNat ≤ 57 := Char.isDigit_iff_toNat.mp h
  have hnat : c.toNat ≠ 48 := fun heq => hne (Char.toNat_inj.mp heq)
  have hlt : '0' < c := by
    show 48 < c.toNat
    omega
  have hcompare : compare '0' c = .lt := if_pos hlt
  exact ⟨hcompare, by rw [Std.OrientedOrd.eq_swap, hcompare, Ordering.swap_lt]⟩

/-- Two numbers compare as their values do. -/
theorem compareRun_numbers (numeric : Numeric) {a b : Text} (hne : a ≠ []) (hne' : b ≠ [])
    (ha : ∀ c ∈ a, c.isDigit = true) (hb : ∀ c ∈ b, c.isDigit = true) (hlt : number a < 2 ^ 53)
    (hlt' : number b < 2 ^ 53) : compareRun numeric a b = compare (runValue a) (runValue b) := by
  obtain ⟨c, cs, rfl⟩ := List.exists_cons_of_ne_nil hne
  obtain ⟨d, ds, rfl⟩ := List.exists_cons_of_ne_nil hne'
  have hc := ha c List.mem_cons_self
  have hd := hb d List.mem_cons_self
  have hrun : compareRun numeric (c :: cs) (d :: ds) =
      if (c = '0' ∨ d = '0') ∧ c :: cs ≠ d :: ds then compare (c :: cs) (d :: ds)
      else numeric.compare (c :: cs) (d :: ds) := by
    rw [compareRun, compareMinor_numbers (isNumber_of_digits hne ha) (isNumber_of_digits hne' hb)]
    simp only [Option.getD_some, List.head?_cons, Option.some.injEq]
  by_cases hzero : c = '0' <;> by_cases hzero' : d = '0'
  · have htext : compare (runValue (c :: cs)) (runValue (d :: ds)) =
        compare (c :: cs) (d :: ds) := by
      rw [hzero, hzero', runValue_fraction, runValue_fraction, compare_runValue]
      show (compare ('0' :: cs) ('0' :: ds)).then .eq = _
      rw [Ordering.then_eq]
    rw [hrun, htext]
    by_cases heq : c :: cs = d :: ds
    · rw [if_neg fun h => h.2 heq, heq, numeric.self, Std.ReflOrd.compare_self]
    · rw [if_pos ⟨Or.inl hzero, heq⟩]
  · rw [hrun, if_pos ⟨Or.inl hzero, fun h => hzero' ((List.cons.inj h).1 ▸ hzero)⟩, hzero,
      runValue_fraction, runValue_whole hd hzero', List.compare_cons_cons,
      (compare_zero hd hzero').1]
    rfl
  · rw [hrun, if_pos ⟨Or.inr hzero', fun h => hzero ((List.cons.inj h).1 ▸ hzero')⟩, hzero',
      runValue_fraction, runValue_whole hc hzero, List.compare_cons_cons,
      (compare_zero hc hzero).2]
    rfl
  · rw [hrun, if_neg fun h => h.1.elim hzero hzero', numeric.exact hlt hlt',
      runValue_whole hc hzero, runValue_whole hd hzero', compare_runValue]
    rfl

/-- The value of a number comes after a character. -/
theorem rank_of_digits {a : Text} (ha : ∀ c ∈ a, c.isDigit = true) : 0 < (runValue a).rank := by
  cases a with
  | nil => exact Nat.one_pos
  | cons c cs =>
      by_cases hzero : c = '0'
      · rw [hzero, runValue_fraction]
        exact Nat.one_pos
      · rw [runValue_whole (ha c List.mem_cons_self) hzero]
        exact Nat.two_pos

/-- Runs of plain versions compare as their values do. -/
theorem compareRun_eq (numeric : Numeric) {va vb a b : Text} (hva : Plain va) (hvb : Plain vb)
    (ha : a ∈ versionRuns (minors va)) (hb : b ∈ versionRuns (minors vb)) :
    compareRun numeric a b = compare (runValue a) (runValue b) := by
  have hword : ∀ {c : Char}, c.isDigit = false → isWord [c] = true ∧ isNumber [c] = false := by
    intro c hc
    refine ⟨isWord_iff.mpr ⟨List.cons_ne_nil c [], fun d hd => ?_⟩,
      isNumber_cons_of_not_digit hc []⟩
    rwa [List.mem_singleton.mp hd]
  have hnumber : ∀ {t : Text}, t ≠ [] → (∀ c ∈ t, c.isDigit = true) →
      isNumber t = true ∧ isWord t = false := by
    intro t hne hdigits
    obtain ⟨c, cs, rfl⟩ := List.exists_cons_of_ne_nil hne
    exact ⟨isNumber_of_digits hne hdigits, isWord_cons_of_digit (hdigits c List.mem_cons_self) cs⟩
  rcases plain_run_cases hva ha with ⟨c, hc, rfl⟩ | ⟨hne, hdigits, hlt⟩ <;>
    rcases plain_run_cases hvb hb with ⟨d, hd, rfl⟩ | ⟨hne', hdigits', hlt'⟩
  · rw [runValue_letter hc, runValue_letter hd, compare_runValue]
    simp only [compareRun, compareMinor, hword hc, hword hd]
    show compare [c] [d] = (compare [c] [d]).then .eq
    rw [Ordering.then_eq]
  · rw [compare_of_rank_lt (by
      rw [runValue_letter hc]
      exact rank_of_digits hdigits')]
    simp [compareRun, compareMinor, hword hc, hnumber hne' hdigits']
  · rw [compare_of_rank_gt (by
      rw [runValue_letter hd]
      exact rank_of_digits hdigits)]
    simp [compareRun, compareMinor, hword hd, hnumber hne hdigits]
  · exact compareRun_numbers numeric hne hne' hdigits hdigits' hlt hlt'

/-- Plain versions compare as the lists of their values do. -/
theorem cmpVersPart_eq (numeric : Numeric) {va vb : Text} (ha : Plain va) (hb : Plain vb) :
    cmpVersPart numeric va vb = compare (values va) (values vb) := by
  have hpre : ∀ {v : Text}, Plain v → withoutPre v = none := by
    intro v hv
    simp [withoutPre, hv.pre]
  rw [cmpVersPart, hpre ha, hpre hb]
  show compareMinors numeric (minors va) (minors vb) = _
  rw [compareMinors_eq numeric (not_mem_minors ha.newline) (not_mem_minors hb.newline)]
  exact compareLex_map fun a ha' b hb' => compareRun_eq numeric ha hb ha' hb'

/-! ## The order -/

/-- The run that has a value. -/
def RunValue.run : RunValue → Text
  | letter c => [c]
  | fraction digits => digits
  | whole n => decimal n

/-- The runs of a plain version can be told from their values. -/
theorem versionRuns_eq {v : Text} (h : Plain v) :
    versionRuns (minors v) = (values v).map RunValue.run := by
  have hrun : ∀ run ∈ versionRuns (minors v), (runValue run).run = run := by
    intro run hmem
    rcases plain_run_cases h hmem with ⟨c, hc, rfl⟩ | ⟨hne, hdigits, -⟩
    · rw [runValue_letter hc]
      rfl
    · obtain ⟨c, cs, rfl⟩ := List.exists_cons_of_ne_nil hne
      by_cases hzero : c = '0'
      · rw [hzero, runValue_fraction]
        rfl
      · rw [runValue_whole (hdigits c List.mem_cons_self) hzero]
        exact decimal_number hdigits hzero
  rw [values, List.map_map]
  exact (List.map_id' _).symm.trans (List.map_congr_left fun run hmem => (hrun run hmem).symm)

/-- Versions of numbers and single characters are in order: to swap them swaps the answer, the order
is transitive, and only versions with the same runs are equal. -/
theorem cmpVersPart_linear (numeric : Numeric) {va vb vc : Text} (ha : Plain va) (hb : Plain vb)
    (hc : Plain vc) :
    cmpVersPart numeric vb va = (cmpVersPart numeric va vb).swap ∧
      (cmpVersPart numeric va vb ≠ .gt → cmpVersPart numeric vb vc ≠ .gt →
        cmpVersPart numeric va vc ≠ .gt) ∧
      (cmpVersPart numeric va vb = .eq ↔ versionRuns (minors va) = versionRuns (minors vb)) := by
  simp only [cmpVersPart_eq numeric ha hb, cmpVersPart_eq numeric hb ha,
    cmpVersPart_eq numeric hb hc, cmpVersPart_eq numeric ha hc]
  refine ⟨Std.OrientedOrd.eq_swap, fun hab hbc => ?_, ?_⟩
  · simp only [← Ordering.isLE_iff_ne_gt] at hab hbc ⊢
    exact Std.TransOrd.isLE_trans hab hbc
  · rw [Std.LawfulEqOrd.compare_eq_iff_eq]
    constructor
    · intro h
      rw [versionRuns_eq ha, versionRuns_eq hb, h]
    · intro h
      rw [values, values, h]

/-- A Perl with integers of any size. -/
def wideNumeric : Numeric where
  compare a b := compare (number a) (number b)
  swap _ _ := Std.OrientedOrd.eq_swap
  exact _ _ := rfl

/-- The number after the dot counts, not its digits. -/
theorem cmpVersPart_linear_numbers :
    cmpVersPart wideNumeric "1.10".toList "1.9".toList =
        (cmpVersPart wideNumeric "1.9".toList "1.10".toList).swap ∧
      cmpVersPart wideNumeric "1.9".toList "1.10".toList ≠ .eq := by
  have hnine : Plain "1.9".toList := ⟨by decide, by decide, by decide +kernel⟩
  have hten : Plain "1.10".toList := ⟨by decide, by decide, by decide +kernel⟩
  obtain ⟨hswap, -, heq⟩ := cmpVersPart_linear wideNumeric hnine hten hten
  exact ⟨hswap, fun h => absurd (heq.mp h) (by decide +kernel)⟩

end MetaSecurity.Bastille
