import MetaSecurity.Questions.OneQuestion
import MetaSecurity.Questions.Silence

/-!
# One run after another

Two runs of the script come to one run with the settings of both: whether an exception is raised,
and what is left in the files, depends on the set of the pairs that were named. No question needs to
have a list of its own for that, since a rewriting changes neither where another one lands nor
whether it raises an exception.
-/

namespace MetaSecurity.Questions

open Library Python

/-! ## Lines that are as good as others -/

/-- A line of the same kind, of which `check_contains` makes an exception or not like before. -/
def Alike (distro line line' : Text) : Prop :=
  kind line' = kind line ∧ (checkContains line' distro).isOk = (checkContains line distro).isOk

/-- A change of the result does not change whether it is one. -/
theorem isOk_map {ε α β : Type*} (f : α → β) (result : Except ε α) :
    (result.map f).isOk = result.isOk := by
  cases result with
  | ok value => rfl
  | error e => rfl

/-- A line that was seen to is like the old one. -/
theorem alike_of_seen {distro : Text} (hcolon : ':' ∉ distro) {line line' : Text}
    (h : Seen distro line line') : Alike distro line line' := by
  refine ⟨kind_seen h, ?_⟩
  rcases h with rfl | ⟨hrequire, rfl⟩
  · rfl
  · cases hcheck : checkContains line distro with
    | ok b =>
        obtain ⟨b', hcheck'⟩ := checkContains_seen hcolon (Or.inr ⟨hrequire, rfl⟩) hcheck
        rw [hcheck']
        rfl
    | error e =>
        have hsame : updated distro line = line := by
          unfold updated
          rw [hcheck]
        rw [hsame, hcheck]

section

variable {distro : Text} {lines lines' : List Text}

theorem isOk_addDistro (h : List.Forall₂ (Alike distro) lines lines') :
    (addDistro distro lines').isOk = (addDistro distro lines).isOk := by
  induction h with
  | nil => rfl
  | @cons line line' rest rest' hline _ ih =>
      have hrequire : isRequire line' = isRequire line := congrArg (fun k => k.2.2) hline.1
      rw [addDistro, addDistro, hrequire]
      split
      · have hcheck := hline.2
        cases hnew : checkContains line' distro with
        | ok b =>
            rw [hnew] at hcheck
            cases hold : checkContains line distro with
            | ok c => cases b <;> cases c <;> rfl
            | error e =>
                rw [hold] at hcheck
                cases hcheck
        | error e =>
            rw [hnew] at hcheck
            cases hold : checkContains line distro with
            | ok c =>
                rw [hold] at hcheck
                cases hcheck
            | error e' => rfl
      · rw [isOk_map, isOk_map, ih]

theorem isOk_addRequires (h : List.Forall₂ (Alike distro) lines lines') (ident : Text) :
    (addRequires ident distro lines').isOk = (addRequires ident distro lines).isOk := by
  induction h with
  | nil => rfl
  | @cons line line' rest rest' hline hrest ih =>
      have hlabelOf : labelOf line' = labelOf line := congrArg Prod.fst hline.1
      have hlabel : isLabel line' = isLabel line := congrArg (fun k => k.2.1) hline.1
      rw [addRequires, addRequires, hlabel]
      split
      next hstart =>
        -- both labels have one colon and the same identifier, or both have another number of colons
        rw [labelOf, labelOf, hlabel, if_pos hstart, if_pos hstart] at hlabelOf
        cases hnew : splitTwo ':' line' with
        | none =>
            rw [hnew] at hlabelOf
            rw [Option.map_eq_none_iff.mp hlabelOf.symm]
            rfl
        | some parts =>
            obtain ⟨parts', hold, hident⟩ := Option.map_eq_some_iff.mp (hlabelOf.symm.trans
              (congrArg (Option.map fun parts => strip parts.2) hnew))
            rw [hold]
            dsimp only
            rw [hident]
            split
            · rw [isOk_map, isOk_map, isOk_addDistro hrest]
            · rw [isOk_map, isOk_map, ih]
      · rw [isOk_map, isOk_map, ih]

end

/-! ## Texts -/

/-- The rewritings of a file, some of them later. -/
theorem rewrittenText_append {distro : Text} (hword : OneWord distro) (idents idents' : List Text)
    (text : Text) : rewrittenText distro idents' (rewrittenText distro idents text) =
      rewrittenText distro (idents ++ idents') text := by
  by_cases hlater : idents' = []
  · rw [hlater, List.append_nil]
    rfl
  · have hboth : idents ++ idents' ≠ [] := List.append_ne_nil_of_right_ne_nil _ hlater
    have hread := readlines_rewrittenText hword idents text
    unfold rewrittenText at hread ⊢
    rw [if_neg hlater, if_neg hboth, hread]
    exact congrArg List.flatten List.foldl_append.symm

/-- Only the set of the questions decides what becomes of a file. -/
theorem rewrittenText_congr {distro : Text} (hword : OneWord distro) {idents idents' : List Text}
    (h : ∀ ident, ident ∈ idents ↔ ident ∈ idents') (text : Text) :
    rewrittenText distro idents text = rewrittenText distro idents' text := by
  have hnil : idents = [] ↔ idents' = [] := by
    simp only [List.eq_nil_iff_forall_not_mem, h]
  have hlines : rewriteAll distro (readlines text) idents =
      rewriteAll distro (readlines text) idents' := by
    refine List.ext_getElem? fun i => ?_
    rw [getElem?_rewriteAll hword, getElem?_rewriteAll hword]
    simp only [h]
  unfold rewrittenText
  rw [hlines]
  simp only [hnil]

/-! ## Runs -/

section

variable {ι : Type*} [DecidableEq ι] {sys : System ι} {opts : Options} {files : Files ι}

/-- No questions file fails to be read or replaced. -/
structure Calm (sys : System ι) : Prop where
  reading : ∀ path files, sys.reading path files = none
  replacing : ∀ path files, sys.replacing path files = none

/-- The pair's file is there, and `add_requires` raises no exception on it. -/
def Feasible (sys : System ι) (opts : Options) (files : Files ι) (pair : Coordinates) : Prop :=
  ∃ text, files (entryOf sys opts pair) = some text ∧
    (addRequires pair.2 opts.distro (readlines text)).isOk = true

/-- Rewritings of a file raise no exception in others and take none away. -/
theorem isOk_addRequires_rewrittenText {distro : Text} (hword : OneWord distro)
    (hcolon : ':' ∉ distro) (idents : List Text) (ident text : Text) :
    (addRequires ident distro (readlines (rewrittenText distro idents text))).isOk =
      (addRequires ident distro (readlines text)).isOk := by
  rw [readlines_rewrittenText hword]
  generalize readlines text = lines
  induction idents generalizing lines with
  | nil => rfl
  | cons other idents ih =>
      have hseen := (seen_rewrite distro lines other).imp fun _ _ => alike_of_seen hcolon
      rw [← isOk_addRequires hseen ident, ← ih (rewrite distro lines other)]
      rfl

omit [DecidableEq ι] in
/-- A file that was rewritten for some questions is as good as before. -/
theorem feasible_of_rewritten (hword : OneWord opts.distro) (hcolon : ':' ∉ opts.distro)
    {last : Files ι} {idents : ι → List Text}
    (hlast : ∀ entry, last entry = (files entry).map (rewrittenText opts.distro (idents entry)))
    (pair : Coordinates) : Feasible sys opts last pair ↔ Feasible sys opts files pair := by
  unfold Feasible
  rw [hlast]
  constructor
  · intro h
    obtain ⟨text', htext', hok⟩ := h
    obtain ⟨text, htext, rfl⟩ := Option.map_eq_some_iff.mp htext'
    exact ⟨text, htext, isOk_addRequires_rewrittenText hword hcolon _ pair.2 text ▸ hok⟩
  · intro h
    obtain ⟨text, htext, hok⟩ := h
    refine ⟨_, Option.map_eq_some_iff.mpr ⟨text, htext, rfl⟩, ?_⟩
    rw [isOk_addRequires_rewrittenText hword hcolon]
    exact hok

/-- Where nothing fails, a file can be rewritten if it is there and has no line that raises. -/
theorem xformFile_feasible (hcalm : Calm sys) {pair : Coordinates} :
    (∃ next, xformFile sys files (questionsFile opts pair.1) opts.distro pair.2 = (next, none)) ↔
      Feasible sys opts files pair := by
  constructor
  · intro h
    obtain ⟨next, hnext⟩ := h
    obtain ⟨text, out, htext, hout, -⟩ := xformFile_ok hnext
    exact ⟨text, htext, by rw [hout]; rfl⟩
  · intro h
    obtain ⟨text, htext, hok⟩ := h
    have hfile : files (sys.locate (questionsFile opts pair.1)) = some text := htext
    cases hout : addRequires pair.2 opts.distro (readlines text) with
    | error e =>
        rw [hout] at hok
        cases hok
    | ok out =>
        refine ⟨Function.update files (sys.locate (questionsFile opts pair.1))
          (some out.flatten), ?_⟩
        simp only [xformFile, hfile, hcalm.reading, hcalm.replacing, hout]

/-- So all of them can be rewritten if each of them can. -/
theorem rewritable_iff (hword : OneWord opts.distro) (hcolon : ':' ∉ opts.distro)
    (hcalm : Calm sys) {pairs : List Coordinates} :
    Rewritable sys opts pairs files ↔ ∀ pair ∈ pairs, Feasible sys opts files pair := by
  induction pairs generalizing files with
  | nil => exact iff_of_true trivial fun _ hmem => absurd hmem List.not_mem_nil
  | cons pair pairs ih =>
      have hstep : ∀ {next : Files ι},
          xformFile sys files (questionsFile opts pair.1) opts.distro pair.2 = (next, none) →
          ∀ other, Feasible sys opts next other ↔ Feasible sys opts files other := by
        intro next hnext other
        have hone : transform sys opts [pair] files = (next, [pair], none) := by
          rw [transform, hnext]
          rfl
        exact feasible_of_rewritten hword hcolon (transform_spec hword hone) other
      rw [List.forall_mem_cons, ← xformFile_feasible hcalm]
      constructor
      · intro h
        obtain ⟨next, hnext, hrest⟩ := h
        exact ⟨⟨next, hnext⟩, fun other hother =>
          (hstep hnext other).mp (ih.mp hrest other hother)⟩
      · intro h
        obtain ⟨⟨next, hnext⟩, hrest⟩ := h
        exact ⟨next, hnext, ih.mpr fun other hother =>
          (hstep hnext other).mpr (hrest other hother)⟩

/-- The files after a run without an exception. -/
theorem files_rewritten (hword : OneWord opts.distro) (h : Succeeds sys opts files) (entry : ι) :
    (main sys opts files).files entry =
      (files entry).map (rewrittenText opts.distro (identsAt sys opts sys.pairs entry)) := by
  obtain ⟨processed, hloop⟩ := transform_of_succeeds h
  exact transform_spec hword hloop entry

/-- The same surroundings with another configuration. -/
def System.on (sys : System ι) (text : Text) : System ι :=
  { sys with config := some text }

/-- A configuration without a badly formatted line. -/
def WellFormed (text : Text) : Prop :=
  ∀ setting ∈ settings text, setting.isOk = true

/-- With such a configuration a run raises no exception if each file can be rewritten. -/
theorem succeeds_on_iff (hword : OneWord opts.distro) (hcolon : ':' ∉ opts.distro)
    (hcalm : Calm sys) (hvalid : sys.questionsIsDir = true ∧ sys.configIsFile = true) {text : Text}
    (hformed : WellFormed text) : Succeeds (sys.on text) opts files ↔
      ∀ pair ∈ (sys.on text).pairs, Feasible sys opts files pair := by
  have hcalm' : Calm (sys.on text) := ⟨hcalm.reading, hcalm.replacing⟩
  rw [succeeds_iff_accepted]
  constructor
  · intro h
    exact (rewritable_iff hword hcolon hcalm').mp h.rewritable
  · intro h
    exact ⟨hvalid, ⟨text, rfl, hformed⟩, (rewritable_iff hword hcolon hcalm').mpr h⟩

/-- A run with some settings and then one with others come to one run with all of them, in any order
and repetition: it raises no exception exactly if none of the two does, and it leaves the same
files. -/
theorem main_union (hword : OneWord opts.distro) (hcolon : ':' ∉ opts.distro) (hcalm : Calm sys)
    (hvalid : sys.questionsIsDir = true ∧ sys.configIsFile = true) {first second both : Text}
    (hfirst : WellFormed first) (hsecond : WellFormed second) (hboth : WellFormed both)
    (hunion : ∀ pair, pair ∈ (sys.on both).pairs ↔
      pair ∈ (sys.on first).pairs ∨ pair ∈ (sys.on second).pairs) :
    let files₁ := (main (sys.on first) opts files).files
    (Succeeds (sys.on both) opts files ↔
        Succeeds (sys.on first) opts files ∧ Succeeds (sys.on second) opts files₁) ∧
      (Succeeds (sys.on both) opts files →
        (main (sys.on both) opts files).files = (main (sys.on second) opts files₁).files) := by
  intro files₁
  have hspec := @succeeds_on_iff _ _ sys opts files hword hcolon hcalm hvalid
  have hlater : Succeeds (sys.on first) opts files →
      (Succeeds (sys.on second) opts files₁ ↔
        ∀ pair ∈ (sys.on second).pairs, Feasible sys opts files pair) := by
    intro h
    rw [succeeds_on_iff hword hcolon hcalm hvalid hsecond]
    exact forall₂_congr fun pair _ =>
      feasible_of_rewritten hword hcolon (files_rewritten hword h) pair
  have hiff : Succeeds (sys.on both) opts files ↔
      Succeeds (sys.on first) opts files ∧ Succeeds (sys.on second) opts files₁ := by
    rw [hspec hboth]
    constructor
    · intro h
      have hone := (hspec hfirst).mpr fun pair hpair => h pair ((hunion pair).mpr (Or.inl hpair))
      exact ⟨hone, (hlater hone).mpr fun pair hpair => h pair ((hunion pair).mpr (Or.inr hpair))⟩
    · intro h pair hpair
      rcases (hunion pair).mp hpair with hmem | hmem
      · exact (hspec hfirst).mp h.1 pair hmem
      · exact (hlater h.1).mp h.2 pair hmem
  refine ⟨hiff, fun h => ?_⟩
  obtain ⟨hone, htwo⟩ := hiff.mp h
  funext entry
  have hmiddle := files_rewritten hword hone entry
  rw [files_rewritten hword h, files_rewritten hword htwo, show files₁ entry = _ from hmiddle,
    Option.map_map]
  refine Option.map_congr fun text _ => ?_
  rw [Function.comp_apply, rewrittenText_append hword]
  refine rewrittenText_congr hword (fun ident => ?_) text
  rw [List.mem_append, mem_identsAt, mem_identsAt, mem_identsAt, ← exists_or]
  refine exists_congr fun pair => ?_
  rw [hunion, or_and_right]
  rfl

end

/-- The same configuration again, which changes nothing. -/
theorem main_union_again :
    let sys := plainSystem "M.b=Y\n".toList
    let files := (main sys plainOptions (oneModule twoQuestions)).files
    Succeeds sys plainOptions files ∧ (main sys plainOptions files).files = files := by
  intro sys files
  have hword : OneWord plainOptions.distro :=
    ⟨by decide, List.forall_iff_forall_mem.mp (by decide)⟩
  have hformed : WellFormed "M.b=Y\n".toList := List.forall_iff_forall_mem.mp (by decide)
  have hcalm : Calm sys := ⟨fun _ _ => rfl, fun _ _ => rfl⟩
  obtain ⟨hiff, hfiles⟩ := @main_union _ _ sys plainOptions (oneModule twoQuestions) hword
    (by decide) hcalm ⟨rfl, rfl⟩ _ _ _ hformed hformed hformed fun pair => or_self_iff.symm
  have hsucceeds : Succeeds sys plainOptions (oneModule twoQuestions) := by
    unfold Succeeds
    decide
  exact ⟨(hiff.mp hsucceeds).2, (hfiles hsucceeds).symm⟩

end MetaSecurity.Questions
