import MetaSecurity.Bastille.VersionOrder
import Mathlib.Data.List.Infix

/-!
# Whether a package is up to date

`B_is_rpm_up_to_date` asks `rpm` for the version of an installed package and compares it with a
version that is wanted. The epoch counts first, then the version, then the release. Three things
come in the way: the epoch is read with the newline behind it, several installed instances of a
package are read as one, and a package that is not installed has a value of its own.
-/

namespace MetaSecurity.Bastille

open Library Shell Perl

/-! ## The query -/

/-- What a package says of its version. -/
structure Evr where
  version : Text
  release : Text
  epoch : Option Nat
  deriving Repr, DecidableEq

/-- An epoch as `rpm` prints it. -/
def epochText : Option Nat → Text
  | none => "(none)".toList
  | some n => decimal n

/-- A line of `rpm -q --qf '%\x7bVERSION\x7d-%\x7bRELEASE\x7d-%\x7bEPOCH\x7d\n'`. -/
def Evr.line (evr : Evr) : Text :=
  evr.version ++ '-' :: (evr.release ++ '-' :: (epochText evr.epoch ++ ['\n']))

/-- What `rpm` prints, with a line for each instance of the package that is installed. -/
def queryEvr (name : Text) (installed : List Evr) : Text :=
  if installed.isEmpty then "package ".toList ++ name ++ " is not installed\n".toList
  else installed.flatMap Evr.line

/-- `/([^-]+)-([^-]+)-([^-]+)$/`. -/
def lastThree (t : Text) : Option (Text × Text × Text) :=
  match (t.splitOn '-').reverse with
  | third :: second :: first :: _ =>
    if first ≠ [] && second ≠ [] && third ≠ [] then some (first, second, third) else none
  | _ => none

/-- `if ($epoch =~ /(none)/) \x7b $epoch = 0; \x7d`. -/
def zeroIfNone (epoch : Text) : Text :=
  if "none".toList <:+: epoch then ['0'] else epoch

/-- The version, the release and the epoch: from one call of `rpm`, or from one call for each. -/
def readEvr (rpmA : Text) (installed : List Evr) : Text × Text × Text :=
  (lastThree rpmA).getD (installed.flatMap Evr.version, installed.flatMap Evr.release,
    installed.flatMap fun evr => epochText evr.epoch)

/-- `B_is_rpm_up_to_date`. -/
def isRpmUpToDate (numeric : Numeric) (name : Text) (wanted : Evr) (installed : List Evr) : Int :=
  if "is not installed".toList <:+: queryEvr name installed then -1
  else
    let verA := (readEvr (queryEvr name installed) installed).1
    let relA := (readEvr (queryEvr name installed) installed).2.1
    let epochA := zeroIfNone (readEvr (queryEvr name installed) installed).2.2
    let epochB := zeroIfNone (epochText wanted.epoch)
    if (number epochA = 0) ≠ (number epochB = 0) then if number epochA ≠ 0 then 1 else 0
    else
      match cmpVersPart numeric epochA epochB with
      | .gt => 1
      | .lt => 0
      | .eq =>
        match cmpVersPart numeric verA wanted.version with
        | .gt => 1
        | .lt => 0
        | .eq => if cmpVersPart numeric relA wanted.release = .lt then 0 else 1

/-! ## Reading what is printed -/

/-- What `rpm` guarantees of the versions of packages, and epochs of 53 bits at most. -/
structure Evr.Valid (evr : Evr) : Prop where
  version_ne_nil : evr.version ≠ []
  release_ne_nil : evr.release ≠ []
  version_plain : '-' ∉ evr.version ∧ ' ' ∉ evr.version
  release_plain : '-' ∉ evr.release ∧ ' ' ∉ evr.release
  epoch_lt : ∀ n ∈ evr.epoch, n < 2 ^ 53

theorem not_mem_epochText (epoch : Option Nat) : '-' ∉ epochText epoch ∧ ' ' ∉ epochText epoch := by
  cases epoch with
  | none => decide
  | some n =>
      exact ⟨fun h => absurd (isDigit_of_mem_decimal h) (by decide),
        fun h => absurd (isDigit_of_mem_decimal h) (by decide)⟩

/-- No line says that the package is missing. -/
theorem not_infix_queryEvr (name : Text) {installed : List Evr} (hne : installed ≠ [])
    (hvalid : ∀ evr ∈ installed, evr.Valid) :
    ¬ "is not installed".toList <:+: queryEvr name installed := by
  intro hinfix
  rw [queryEvr, if_neg (by simpa using hne)] at hinfix
  have hblank : ' ' ∈ installed.flatMap Evr.line := hinfix.subset (by decide)
  obtain ⟨evr, hmem, hline⟩ := List.mem_flatMap.mp hblank
  have hevr := hvalid evr hmem
  simp [Evr.line, hevr.version_plain, hevr.release_plain, not_mem_epochText] at hline

/-- The last three parts are found, whatever stands before them. -/
theorem lastThree_append {first second third : Text} (hfirst : first ≠ [] ∧ '-' ∉ first)
    (hsecond : second ≠ [] ∧ '-' ∉ second) (hthird : third ≠ [] ∧ '-' ∉ third) {front : Text}
    (hfront : front = [] ∨ ∃ before, front = before ++ ['-']) :
    lastThree (front ++ (first ++ '-' :: (second ++ '-' :: third))) =
      some (first, second, third) := by
  have hparts : (first ++ '-' :: (second ++ '-' :: third)).splitOn '-' =
      [first, second, third] := by
    rw [List.splitOn_append_cons_self_of_not_mem hfirst.2,
      List.splitOn_append_cons_self_of_not_mem hsecond.2, List.splitOn_eq_singleton hthird.2]
  have hsplit : ∃ before, (front ++ (first ++ '-' :: (second ++ '-' :: third))).splitOn '-' =
      before ++ [first, second, third] := by
    rcases hfront with rfl | ⟨before, rfl⟩
    · exact ⟨[], hparts⟩
    · refine ⟨before.splitOn '-', ?_⟩
      rw [List.append_assoc, List.singleton_append, List.splitOn_append_cons_self, hparts]
  obtain ⟨before, hsplit⟩ := hsplit
  rw [lastThree, hsplit, List.reverse_append]
  simp [hfirst.1, hsecond.1, hthird.1]

/-! ## Epochs -/

/-- A number without a dot is compared as a whole. -/
theorem cmpVersPart_numbers (numeric : Numeric) {a b : Text} (ha : isNumber a = true)
    (hb : isNumber b = true) (hdot : '.' ∉ a) (hdot' : '.' ∉ b) :
    cmpVersPart numeric a b =
      if (a.head? = some '0' ∨ b.head? = some '0') ∧ a ≠ b then compare a b
      else numeric.compare a b := by
  have hplain : ∀ {t : Text}, isNumber t = true → '.' ∉ t → t ≠ [] ∧ withoutPre t = none ∧
      minors t = [t] := by
    intro t ht hdot
    cases t with
    | nil => exact absurd ht (by decide)
    | cons c t =>
        have hpre : isPre (c :: t) = false := by
          have hc := isDigit_head_of_isNumber ht
          have hne : c ≠ 'p' := fun heq => absurd (heq ▸ hc) (by decide)
          simp [isPre, List.isPrefixOf, hne.symm]
        refine ⟨List.cons_ne_nil c t, by simp [withoutPre, hpre], ?_⟩
        rw [minors, split_of_not_mem (List.cons_ne_nil c t) hdot]
        rfl
  obtain ⟨hne, hpre, hminors⟩ := hplain ha hdot
  obtain ⟨hne', hpre', hminors'⟩ := hplain hb hdot'
  rw [cmpVersPart, hpre, hpre']
  show compareMinors numeric (minors a) (minors b) = _
  rw [hminors, hminors', compareMinors, if_neg hne, if_neg hne', compareMinor_numbers ha hb]
  split
  next heq =>
    rw [Option.some_inj] at heq
    rw [heq, compareMinors]
  next heq => exact (Option.some_inj.mp heq).symm
  next heq => cases heq

/-- The text of an epoch as it is compared. -/
theorem zeroIfNone_epochText (epoch : Option Nat) :
    zeroIfNone (epochText epoch) = decimal (epoch.getD 0) ∧
      zeroIfNone (epochText epoch ++ ['\n']) = epoch.elim ['0'] (decimal · ++ ['\n']) := by
  cases epoch with
  | none => exact ⟨by decide, by decide⟩
  | some n =>
      have hnot : ∀ blank : Text, 'n' ∉ blank → ¬ "none".toList <:+: decimal n ++ blank := by
        intro blank hblank hinfix
        have hmem : 'n' ∈ decimal n ++ blank := hinfix.subset (by decide)
        rcases List.mem_append.mp hmem with hmem | hmem
        · exact absurd (isDigit_of_mem_decimal hmem) (by decide)
        · exact hblank hmem
      refine ⟨?_, if_neg (hnot ['\n'] (by decide))⟩
      have hempty := hnot [] List.not_mem_nil
      rw [List.append_nil] at hempty
      exact if_neg hempty

/-- As a number, the epoch is not changed by the newline. -/
theorem number_epoch (epoch : Option Nat) :
    number (epoch.elim ['0'] (decimal · ++ ['\n'])) = epoch.getD 0 := by
  cases epoch with
  | none => decide
  | some m => exact number_decimal_append (by decide) []

/-- How the epochs compare: an installed epoch that is given as zero comes after zero. -/
theorem cmpVersPart_epochs (numeric : Numeric) (epoch : Option Nat) (n : Nat)
    (hlt : ∀ m ∈ epoch, m < 2 ^ 53) (hlt' : n < 2 ^ 53) (hsame : epoch.getD 0 = 0 ↔ n = 0) :
    cmpVersPart numeric (epoch.elim ['0'] (decimal · ++ ['\n'])) (decimal n) =
      if epoch = some 0 then .gt else compare (epoch.getD 0) n := by
  have hdecimal : ∀ m, isNumber (decimal m) = true ∧ '.' ∉ decimal m ∧
      isNumber (decimal m ++ ['\n']) = true ∧ '.' ∉ decimal m ++ ['\n'] := by
    intro m
    have hall : (decimal m).all Char.isDigit = true :=
      List.all_eq_true.mpr fun _ hc => isDigit_of_mem_decimal hc
    have hdot : '.' ∉ decimal m := fun h => absurd (isDigit_of_mem_decimal h) (by decide)
    have hnewline : '\n' ∉ decimal m := fun h => absurd (isDigit_of_mem_decimal h) (by decide)
    refine ⟨?_, hdot, ?_, by simp [hdot]⟩
    · simp [isNumber, chomp_of_not_mem hnewline, decimal_ne_nil, hall]
    · simp [isNumber, decimal_ne_nil, hall]
  cases epoch with
  | none =>
      have hzero : n = 0 := hsame.mp rfl
      rw [hzero]
      show cmpVersPart numeric ['0'] ['0'] = .eq
      rw [cmpVersPart_numbers numeric (by decide) (by decide) (by decide) (by decide),
        if_neg (by simp), numeric.self]
  | some m =>
      obtain ⟨-, -, hnumber, hdot⟩ := hdecimal m
      obtain ⟨hnumber', hdot', -, -⟩ := hdecimal n
      show cmpVersPart numeric (decimal m ++ ['\n']) (decimal n) = _
      rw [cmpVersPart_numbers numeric hnumber hnumber' hdot hdot']
      by_cases hzero : m = 0
      · have hzero' : n = 0 := hsame.mp hzero
        rw [hzero, hzero', if_pos rfl]
        -- the newline makes the difference
        rw [if_pos (by decide)]
        decide
      · have hpos : 0 < n := Nat.pos_of_ne_zero fun h => hzero (hsame.mpr h)
        have hhead : (decimal m ++ ['\n']).head? ≠ some '0' := by
          rw [List.head?_append_of_ne_nil _ (decimal_ne_nil m)]
          exact head_decimal (Nat.pos_of_ne_zero hzero)
        have hnumber : number (decimal m ++ ['\n']) = m := number_epoch (some m)
        rw [if_neg fun h => h.1.elim hhead (head_decimal hpos),
          if_neg fun h => hzero (Option.some_inj.mp h),
          numeric.exact (hnumber.symm ▸ hlt m rfl) ((number_decimal n).symm ▸ hlt'), hnumber,
          number_decimal]
        rfl

/-! ## The answer -/

/-- The installed version is the wanted one or a newer one: the epochs count first, then the
versions, then the releases. -/
def Evr.AtLeast (numeric : Numeric) (evr wanted : Evr) : Prop :=
  wanted.epoch.getD 0 < evr.epoch.getD 0 ∨ (wanted.epoch.getD 0 = evr.epoch.getD 0 ∧
    (cmpVersPart numeric evr.version wanted.version = .gt ∨
      (cmpVersPart numeric evr.version wanted.version = .eq ∧
        cmpVersPart numeric evr.release wanted.release ≠ .lt)))

/-- What is read of a single instance. -/
theorem readEvr_singleton (name : Text) {evr : Evr} (h : evr.Valid) :
    readEvr (queryEvr name [evr]) [evr] =
      (evr.version, evr.release, epochText evr.epoch ++ ['\n']) := by
  have hquery : queryEvr name [evr] = evr.line := by
    rw [queryEvr, if_neg (by simp), List.flatMap_singleton]
  have hthree : lastThree ([] ++ evr.line) =
      some (evr.version, evr.release, epochText evr.epoch ++ ['\n']) :=
    lastThree_append ⟨h.version_ne_nil, h.version_plain.1⟩ ⟨h.release_ne_nil, h.release_plain.1⟩
      ⟨by simp, by simp [not_mem_epochText]⟩ (Or.inl rfl)
  rw [readEvr, hquery, ← List.nil_append evr.line, hthree]
  rfl

/-- For a package with one installed instance, the function says that it is up to date exactly if
the installed version is the wanted one or a newer one, or if its epoch is given as zero and no
other epoch is wanted. Otherwise it says that it is not. -/
theorem isRpmUpToDate_iff (numeric : Numeric) (name : Text) {evr wanted : Evr} (h : evr.Valid)
    (hwanted : ∀ n ∈ wanted.epoch, n < 2 ^ 53) :
    (isRpmUpToDate numeric name wanted [evr] = 1 ↔
      (evr.epoch = some 0 ∧ wanted.epoch.getD 0 = 0) ∨ evr.AtLeast numeric wanted) ∧
      (isRpmUpToDate numeric name wanted [evr] ≠ 1 →
        isRpmUpToDate numeric name wanted [evr] = 0) := by
  have hlt : wanted.epoch.getD 0 < 2 ^ 53 := by
    cases hepoch : wanted.epoch with
    | none => decide
    | some n => exact hwanted n (hepoch ▸ rfl)
  unfold isRpmUpToDate
  rw [if_neg (not_infix_queryEvr name (by simp) (by simpa using h)),
    readEvr_singleton name h]
  simp only [zeroIfNone_epochText, number_epoch, number_decimal]
  by_cases hsame : evr.epoch.getD 0 = 0 ↔ wanted.epoch.getD 0 = 0
  · rw [if_neg (by simp [hsame]), cmpVersPart_epochs numeric _ _ h.epoch_lt hlt hsame]
    by_cases hexplicit : evr.epoch = some 0
    · have hzero : wanted.epoch.getD 0 = 0 := hsame.mp (by rw [hexplicit]; rfl)
      simp [hexplicit, hzero]
    · rw [if_neg hexplicit]
      rcases Nat.lt_trichotomy (evr.epoch.getD 0) (wanted.epoch.getD 0) with hless | heq | hgreater
      · rw [Nat.compare_eq_lt.mpr hless]
        simp [Evr.AtLeast, hexplicit, hless.ne', hless.le]
      · rw [Nat.compare_eq_eq.mpr heq]
        cases hversion : cmpVersPart numeric evr.version wanted.version <;>
          cases hrelease : cmpVersPart numeric evr.release wanted.release <;>
          simp [Evr.AtLeast, hexplicit, heq, hversion, hrelease]
      · rw [Nat.compare_eq_gt.mpr hgreater]
        simp [Evr.AtLeast, hexplicit, hgreater]
  · rw [if_pos (by simpa using hsame)]
    by_cases hzero : evr.epoch.getD 0 = 0
    · have hpos : 0 < wanted.epoch.getD 0 := by
        refine Nat.pos_of_ne_zero fun h => hsame ?_
        simp [hzero, h]
      rw [if_neg (by simpa using hzero)]
      simp [Evr.AtLeast, hzero, hpos.ne']
    · have hwantedZero : wanted.epoch.getD 0 = 0 := by
        by_contra hne
        exact hsame (iff_of_false hzero hne)
      have hexplicit : evr.epoch ≠ some 0 := fun h => hzero (by rw [h]; rfl)
      rw [if_pos hzero]
      simp [Evr.AtLeast, hwantedZero, Nat.pos_of_ne_zero hzero]

/-- An installed version 1 that is said to be version 2 or newer. -/
theorem isRpmUpToDate_iff_explicit :
    isRpmUpToDate wideNumeric "a".toList ⟨['2'], ['1'], none⟩ [⟨['1'], ['1'], some 0⟩] = 1 := by
  have hvalid : Evr.Valid ⟨['1'], ['1'], some 0⟩ :=
    ⟨by decide, by decide, by decide, by decide, by simp⟩
  exact (isRpmUpToDate_iff wideNumeric _ hvalid (by simp)).1.mpr (Or.inl ⟨rfl, rfl⟩)

/-! ## Several instances -/

/-- A minor that begins with a word is older than one that begins with a number. -/
theorem compareMinors_word_number (numeric : Numeric) {c d : Char} (hc : c.isDigit = false)
    (hd : d.isDigit = true) (a b : Text) (as bs : List Text) :
    compareMinors numeric ((c :: a) :: as) ((d :: b) :: bs) = .lt := by
  have hcompare : ∀ t u, compareMinor numeric (c :: t) (d :: u) =
      if isWord (c :: t) && isNumber (d :: u) then some .lt else none := by
    intro t u
    simp [compareMinor, isNumber_cons_of_not_digit hc, isWord_cons_of_digit hd]
  rw [compareMinors, if_neg (List.cons_ne_nil c a), if_neg (List.cons_ne_nil d b), hcompare]
  by_cases hkinds : (isWord (c :: a) && isNumber (d :: b)) = true
  · rw [if_pos hkinds]
  · rw [if_neg hkinds]
    -- what the minors begin with comes first when they are split
    obtain ⟨rest, hrest⟩ := cut_cons_of_neg Char.isDigit a hc
    obtain ⟨rest', hrest'⟩ := cut_cons_of_pos Char.isDigit b hd
    have hword : isWord (c :: a.takeWhile fun e => !e.isDigit) = true := by
      refine isWord_iff.mpr ⟨List.cons_ne_nil _ _, fun e he => ?_⟩
      rcases List.mem_cons.mp he with rfl | he
      · exact hc
      · simpa using List.mem_takeWhile_imp he
    have hnumber : isNumber (d :: b.takeWhile Char.isDigit) = true := by
      have hdigits : ∀ e ∈ d :: b.takeWhile Char.isDigit, e.isDigit = true := by
        intro e he
        rcases List.mem_cons.mp he with rfl | he
        · exact hd
        · exact List.mem_takeWhile_imp he
      exact isNumber_of_digits (List.cons_ne_nil _ _) hdigits
    show compareMinors numeric (cut Char.isDigit (c :: a) ++ as)
      (cut Char.isDigit (d :: b) ++ bs) = .lt
    rw [hrest, hrest', List.cons_append, List.cons_append, compareMinors,
      if_neg (List.cons_ne_nil _ _), if_neg (List.cons_ne_nil _ _), hcompare, hword, hnumber]
    rfl

/-- A version that begins with a word is older than one that begins with a number. -/
theorem cmpVersPart_word_number (numeric : Numeric) {c d : Char} (hc : c.isDigit = false)
    (hdot : c ≠ '.') (hp : c ≠ 'p') (hd : d.isDigit = true) (v w : Text) :
    cmpVersPart numeric (c :: v) (d :: w) = .lt := by
  have hne : d ≠ '.' ∧ d ≠ 'p' :=
    ⟨fun heq => absurd (heq ▸ hd) (by decide), fun heq => absurd (heq ▸ hd) (by decide)⟩
  have hpre : ∀ {e : Char} {t : Text}, e ≠ 'p' → withoutPre (e :: t) = none := by
    intro e t he
    simp [withoutPre, isPre, List.isPrefixOf, he.symm]
  have hminors : ∀ {e : Char} {t : Text}, e ≠ '.' →
      ∃ a as, minors (e :: t) = (e :: a) :: as := by
    intro e t he
    obtain ⟨field, rest, hsplit⟩ := split_cons_of_ne he t
    exact ⟨field, rest, by rw [minors, hsplit]; rfl⟩
  obtain ⟨a, as, ha⟩ := hminors (t := v) hdot
  obtain ⟨b, bs, hb⟩ := hminors (t := w) hne.1
  rw [cmpVersPart, hpre hp, hpre hne.2]
  show compareMinors numeric (minors (c :: v)) (minors (d :: w)) = .lt
  rw [ha, hb]
  exact compareMinors_word_number numeric hc hd a b as bs

/-- What is read of several instances. -/
theorem readEvr_append (name : Text) (front : List Evr) {prev last : Evr} (h : last.Valid)
    (hepoch : last.epoch = none) :
    readEvr (queryEvr name (front ++ [prev, last])) (front ++ [prev, last]) =
      (epochText prev.epoch ++ '\n' :: last.version, last.release, epochText none ++ ['\n']) := by
  have hquery : queryEvr name (front ++ [prev, last]) =
      (front.flatMap Evr.line ++ (prev.version ++ '-' :: prev.release) ++ ['-']) ++
        ((epochText prev.epoch ++ '\n' :: last.version) ++ '-' :: (last.release ++
          '-' :: (epochText none ++ ['\n']))) := by
    rw [queryEvr, if_neg (by simp)]
    simp [Evr.line, hepoch]
  have hfirst : epochText prev.epoch ++ '\n' :: last.version ≠ [] ∧
      '-' ∉ epochText prev.epoch ++ '\n' :: last.version := by
    refine ⟨by simp, ?_⟩
    simp [not_mem_epochText, h.version_plain]
  rw [readEvr, hquery, lastThree_append hfirst ⟨h.release_ne_nil, h.release_plain.1⟩
    ⟨by simp, by decide⟩ (Or.inr ⟨_, rfl⟩)]
  rfl

/-- A package of which two or more instances are installed, as of a kernel, is never up to date: if
no epoch is given, none is wanted and the wanted version begins with a digit, the answer is no. -/
theorem several_not_upToDate (numeric : Numeric) (name : Text) {installed : List Evr}
    (hseveral : 2 ≤ installed.length) (hvalid : ∀ evr ∈ installed, evr.Valid)
    (hepochs : ∀ evr ∈ installed, evr.epoch = none) {wanted : Evr}
    (hwanted : wanted.epoch.getD 0 = 0)
    (hversion : wanted.version.head?.any Char.isDigit = true) :
    isRpmUpToDate numeric name wanted installed = 0 := by
  obtain ⟨front, prev, last, rfl⟩ : ∃ front prev last, installed = front ++ [prev, last] := by
    rcases List.eq_nil_or_concat' installed with rfl | ⟨init, last, rfl⟩
    · simp at hseveral
    · rcases List.eq_nil_or_concat' init with rfl | ⟨front, prev, rfl⟩
      · simp at hseveral
      · exact ⟨front, prev, last, by simp⟩
  have hprev : prev.epoch = none := hepochs prev (by simp)
  have hlast : last.epoch = none := hepochs last (by simp)
  obtain ⟨d, w, hw, hd⟩ : ∃ d w, wanted.version = d :: w ∧ d.isDigit = true := by
    cases hcons : wanted.version with
    | nil => simp [hcons] at hversion
    | cons d w => exact ⟨d, w, rfl, by simpa [hcons] using hversion⟩
  have hepochA : zeroIfNone (epochText none ++ ['\n']) = decimal 0 := by decide
  have hepochs : cmpVersPart numeric (decimal 0) (decimal 0) = .eq :=
    cmpVersPart_epochs numeric none 0 (by simp) (by decide) Iff.rfl
  have hversions : cmpVersPart numeric (epochText none ++ '\n' :: last.version) (d :: w) = .lt :=
    cmpVersPart_word_number numeric (by decide) (by decide) (by decide) hd _ w
  unfold isRpmUpToDate
  rw [if_neg (not_infix_queryEvr name (by simp) hvalid),
    readEvr_append name front (hvalid last (by simp)) hlast]
  simp only [(zeroIfNone_epochText wanted.epoch).1, hwanted, hepochA, hprev, hw, hepochs, hversions]
  simp

/-- Two instances of a kernel, both newer than what is wanted. -/
theorem several_not_upToDate_kernel :
    isRpmUpToDate wideNumeric "kernel".toList ⟨['2'], ['1'], none⟩
      [⟨['3'], ['1'], none⟩, ⟨['4'], ['1'], none⟩] = 0 := by
  have hvalid : ∀ evr ∈ [⟨['3'], ['1'], none⟩, ⟨['4'], ['1'], none⟩], Evr.Valid evr := by
    intro evr hevr
    rcases List.mem_pair.mp hevr with rfl | rfl <;>
      exact ⟨by decide, by decide, by decide, by decide, by simp⟩
  exact several_not_upToDate wideNumeric _ (by decide) hvalid (by simp) rfl rfl

end MetaSecurity.Bastille
