import MetaSecurity.Questions.Effect

/-!
# When a run that ends with status 0 has done what it was asked for

A label that is not in the file, and a question without a `REQUIRE_DISTRO` of its own, raise no
exception, and with `--debug` no exception changes the exit status. `not_silent_iff` says exactly
when status 0 can be relied upon.
-/

namespace MetaSecurity.Questions

open Library Python

variable {ι : Type*} [DecidableEq ι] {sys : System ι} {opts : Options} {files : Files ι}

/-! ## What was asked for -/

/-- The question has a list of its own that lists the distribution. -/
def ListsDistro (distro ident : Text) (lines : List Text) : Prop :=
  ∃ i, ownRequire ident lines = some i ∧ ∃ line ∈ lines[i]?, listed distro line = true

/-- The run did what it was asked for: the arguments are valid, every line of the configuration that
is no comment was processed, and each of its questions now lists the distribution. -/
structure Effective (sys : System ι) (opts : Options) (run : Run ι) : Prop where
  valid : sys.questionsIsDir = true ∧ sys.configIsFile = true
  complete : ∃ text, sys.config = some text ∧ settings text = run.processed.map .ok
  listed : ∀ pair ∈ sys.pairs, ∃ text, run.files (entryOf sys opts pair) = some text ∧
    ListsDistro opts.distro pair.2 (readlines text)

/-- The files can be rewritten one after the other: each file is there when its turn comes, can be
read and replaced, and `add_requires` raises no exception. -/
def Rewritable (sys : System ι) (opts : Options) : List Coordinates → Files ι → Prop
  | [], _ => True
  | pair :: pairs, files =>
      ∃ next, xformFile sys files (questionsFile opts pair.1) opts.distro pair.2 = (next, none) ∧
        Rewritable sys opts pairs next

/-- Nothing is wrong with the input: the arguments are valid, the configuration can be read and has
no badly formatted line, and the files can be rewritten. -/
structure Accepted (sys : System ι) (opts : Options) (files : Files ι) : Prop where
  valid : sys.questionsIsDir = true ∧ sys.configIsFile = true
  wellFormed : ∃ text, sys.config = some text ∧ ∀ setting ∈ settings text, setting.isOk = true
  rewritable : Rewritable sys opts sys.pairs files

/-! ## Exceptions -/

/-- A loop raises nothing when the files can be rewritten. -/
theorem transform_ok_iff {pairs : List Coordinates} :
    (∃ last processed, transform sys opts pairs files = (last, processed, none)) ↔
      Rewritable sys opts pairs files := by
  induction pairs generalizing files with
  | nil => exact ⟨fun _ => trivial, fun _ => ⟨files, [], rfl⟩⟩
  | cons pair pairs ih =>
      constructor
      · rintro ⟨last, processed, h⟩
        obtain ⟨next, rest, hstep, hrest, -⟩ := transform_cons_ok h
        exact ⟨next, hstep, ih.mp ⟨last, rest, hrest⟩⟩
      · rintro ⟨next, hstep, hnext⟩
        obtain ⟨last, rest, hrest⟩ := ih.mpr hnext
        exact ⟨last, pair :: rest, by rw [transform, hstep]; simp only [hrest]⟩

/-- With an exception, not all settings were processed. -/
theorem processConfig_raised {last : Files ι} {processed : List Coordinates} {raised : Raised}
    (h : processConfig sys opts files = (last, processed, some raised)) {text : Text}
    (hconfig : sys.config = some text) : settings text ≠ processed.map .ok := by
  intro hsettings
  have hlength := congrArg List.length hsettings
  unfold processConfig at h
  simp only [hconfig] at h
  have hspec := getConfig_spec (readlines text)
  cases hloop : transform sys opts (getConfig (readlines text)).1 files with
  | mk final result =>
      obtain ⟨done, outcome⟩ := result
      cases outcome with
      | some failure =>
          simp only [hloop, Prod.mk.injEq] at h
          obtain ⟨-, rfl, -⟩ := h
          -- the loop raised, and the pair that it raised for was not processed
          rcases transform_processed hloop with ⟨hnone, -⟩ | ⟨pair, rest, -, hpairs⟩
          · cases hnone
          · rcases hspec with ⟨-, hmap⟩ | ⟨e, others, -, hmap⟩
            · rw [settings, hmap, hpairs] at hlength
              simp at hlength
            · rw [settings, hmap, hpairs] at hlength
              simp at hlength
      | none =>
          simp only [hloop, Prod.mk.injEq] at h
          obtain ⟨-, rfl, hmalformed⟩ := h
          rcases transform_processed hloop with ⟨-, hdone⟩ | ⟨pair, rest, hsome, -⟩
          · rcases hspec with ⟨hnone, -⟩ | ⟨e, others, -, hmap⟩
            · rw [hnone] at hmalformed
              cases hmalformed
            · rw [settings, hmap, hdone] at hlength
              simp at hlength
          · cases hsome

/-- Only a run with an exception and without `--debug` ends with another status than 0. -/
theorem status_eq_zero_iff :
    (main sys opts files).status = 0 ↔ Succeeds sys opts files ∨ opts.debug = true := by
  have hrest : ∀ caught, (mainRest sys opts files caught).exit = none ↔
      (mainRest sys opts files caught).caught = caught ∨ opts.debug = true := by
    intro caught
    unfold mainRest
    cases hprocess : processConfig sys opts files with
    | mk last result =>
        obtain ⟨processed, raised⟩ := result
        cases raised with
        | none => simp
        | some raised => simp
  have hstatus : (main sys opts files).status = 0 ↔ (main sys opts files).exit = none := by
    unfold Run.status
    cases (main sys opts files).exit <;> simp
  rw [hstatus]
  unfold Succeeds main
  cases checkArgs sys opts with
  | none => exact hrest []
  | some e =>
      cases hdebug : opts.debug with
      | true => simp [hrest, hdebug]
      | false => simp

/-- A run that did what it was asked for raised no exception. -/
theorem succeeds_of_effective (h : Effective sys opts (main sys opts files)) :
    Succeeds sys opts files := by
  have hcheck : checkArgs sys opts = none := by simp [checkArgs, h.valid]
  obtain ⟨text, hconfig, hsettings⟩ := h.complete
  have hmain : main sys opts files = mainRest sys opts files [] := by
    unfold main
    rw [hcheck]
  unfold Succeeds
  rw [hmain] at hsettings ⊢
  unfold mainRest at hsettings ⊢
  cases hprocess : processConfig sys opts files with
  | mk last result =>
      obtain ⟨processed, raised⟩ := result
      cases raised with
      | none => rfl
      | some raised =>
          rw [hprocess] at hsettings
          exact absurd hsettings (processConfig_raised hprocess hconfig)

/-- A run raises no exception when nothing is wrong with the input. -/
theorem succeeds_iff_accepted : Succeeds sys opts files ↔ Accepted sys opts files := by
  constructor
  · intro h
    obtain ⟨hcheck, last, processed, hprocess, -⟩ := main_of_succeeds h
    obtain ⟨⟨text, hconfig, hsettings⟩, hloop⟩ := processConfig_ok hprocess
    refine ⟨?_, ⟨text, hconfig, ?_⟩, transform_ok_iff.mp ⟨last, processed, hloop⟩⟩
    · unfold checkArgs at hcheck
      cases hdir : sys.questionsIsDir <;> cases hfile : sys.configIsFile <;>
        simp [hdir, hfile] at hcheck ⊢
    · rw [hsettings]
      intro setting hsetting
      obtain ⟨pair, -, rfl⟩ := List.mem_map.mp hsetting
      rfl
  · intro h
    have hcheck : checkArgs sys opts = none := by simp [checkArgs, h.valid]
    obtain ⟨text, hconfig, hsettings⟩ := h.wellFormed
    obtain ⟨last, processed, hloop⟩ := transform_ok_iff.mpr h.rewritable
    have hmalformed : (getConfig (readlines text)).2 = none := by
      rcases getConfig_spec (readlines text) with ⟨hnone, -⟩ | ⟨e, rest, -, hmap⟩
      · exact hnone
      · have herror := hsettings (.error e) (by simp [settings, hmap])
        cases herror
    have hpairs : sys.pairs = (getConfig (readlines text)).1 := by rw [System.pairs, hconfig]
    rw [hpairs] at hloop
    unfold Succeeds main mainRest processConfig
    simp only [hcheck, hconfig, hloop, hmalformed, Option.map_none]

/-! ## The questions -/

/-- A list that lists the distribution goes on doing so. -/
theorem ListsDistro.rewriteAll {distro ident : Text} {lines : List Text}
    (h : ListsDistro distro ident lines) (idents : List Text) :
    ListsDistro distro ident (rewriteAll distro lines idents) := by
  induction idents generalizing lines with
  | nil => exact h
  | cons other idents ih =>
      refine ih ?_
      obtain ⟨i, hown, line, hline, hlisted⟩ := h
      refine ⟨i, ?_, line, ?_, hlisted⟩
      · rw [(search_congr ident (map_kind_rewrite distro lines other)).2.2, hown]
      · rw [getElem?_rewrite, Option.mem_def.mp hline, Option.map_some, updated_of_listed hlisted,
          ite_self]
        exact Option.mem_def.mpr rfl

/-- A question with a list of its own, after `add_requires`. -/
theorem listsDistro_of_addRequires {distro ident : Text} (hword : OneWord distro)
    {lines out : List Text} (h : addRequires ident distro lines = .ok out)
    (hown : (ownRequire ident lines).isSome = true) : ListsDistro distro ident out := by
  obtain ⟨i, hi⟩ := Option.isSome_iff_exists.mp hown
  obtain ⟨rfl, hsplit⟩ := addRequires_ok h
  have hlands := requireAfter_of_ownRequire hi
  obtain ⟨line, hline, -, b, hcheck⟩ := hsplit i hlands
  refine ⟨i, ?_, updated distro line, ?_, listed_updated hword hcheck⟩
  · rw [(search_congr ident (map_kind_rewrite distro lines ident)).2.2, hi]
  · rw [getElem?_rewrite, Option.mem_def.mp hline]
    simp [hlands]

/-- What is read of a file after the questions named for it have been seen to. -/
theorem readlines_rewrittenText {distro : Text} (hword : OneWord distro) (idents : List Text)
    (text : Text) :
    readlines (rewrittenText distro idents text) = rewriteAll distro (readlines text) idents := by
  induction idents generalizing text with
  | nil => rfl
  | cons ident idents ih =>
      rw [← rewrittenText_cons hword, ih, readlines_rewrite hword]
      rfl

/-- After a loop without an exception, the questions with lists of their own list the
distribution. -/
theorem listsDistro_of_transform (hword : OneWord opts.distro) {pairs processed : List Coordinates}
    {last : Files ι} (h : transform sys opts pairs files = (last, processed, none))
    (hown : ∀ pair ∈ pairs, ∀ text, files (entryOf sys opts pair) = some text →
      (ownRequire pair.2 (readlines text)).isSome = true) :
    ∀ pair ∈ pairs, ∃ text, last (entryOf sys opts pair) = some text ∧
      ListsDistro opts.distro pair.2 (readlines text) := by
  induction pairs generalizing files processed with
  | nil => exact fun _ hpair => nomatch hpair
  | cons pair pairs ih =>
      obtain ⟨next, rest, hstep, hrest, -⟩ := transform_cons_ok h
      obtain ⟨text, out, hfile, hout, rfl⟩ := xformFile_ok hstep
      obtain rfl := (addRequires_ok hout).1
      have hread := readlines_rewrite hword text pair.2
      intro other hother
      rcases List.mem_cons.mp hother with rfl | hother
      · have hlists := listsDistro_of_addRequires hword hout (hown other hother text hfile)
        have hlast := transform_spec hword hrest (entryOf sys opts other)
        rw [entryOf, Function.update_self, Option.map_some] at hlast
        refine ⟨_, hlast, ?_⟩
        rw [readlines_rewrittenText hword, hread]
        exact hlists.rewriteAll _
      · refine ih hrest (fun later hlater found hfound => ?_) other hother
        by_cases hentry : entryOf sys opts later = sys.locate (questionsFile opts pair.1)
        · rw [hentry, Function.update_self, Option.some.injEq] at hfound
          rw [← hfound, hread, (search_congr later.2 (map_kind_rewrite _ _ _)).2.2]
          exact hown later (List.mem_cons_of_mem _ hlater) text (hentry ▸ hfile)
        · rw [Function.update_of_ne hentry] at hfound
          exact hown later (List.mem_cons_of_mem _ hlater) found hfound

/-- What a run without an exception has done. -/
theorem effective_iff_of_succeeds (h : Succeeds sys opts files) :
    Effective sys opts (main sys opts files) ↔ sys.pairs = [] ∨ OneWord opts.distro ∧
      ∀ pair ∈ sys.pairs, ∀ text, files (entryOf sys opts pair) = some text →
        (ownRequire pair.2 (readlines text)).isSome = true := by
  obtain ⟨processed, hloop⟩ := transform_of_succeeds h
  constructor
  · intro heffective
    cases hpairs : sys.pairs with
    | nil => exact Or.inl rfl
    | cons first others =>
        rw [← hpairs]
        have hword : OneWord opts.distro := by
          obtain ⟨-, -, -, -, line, -, hlisted⟩ := heffective.listed first (by simp [hpairs])
          exact oneWord_of_mem_words (List.contains_iff_mem.mp hlisted)
        refine Or.inr ⟨hword, fun pair hpair text htext => ?_⟩
        obtain ⟨final, hfinal, i, hown, -⟩ := heffective.listed pair hpair
        have hrewritten := transform_spec hword hloop (entryOf sys opts pair)
        rw [htext, hfinal, Option.map_some, Option.some.injEq] at hrewritten
        rw [hrewritten, readlines_rewrittenText hword,
          (search_congr pair.2 (map_kind_rewriteAll _ _ _)).2.2] at hown
        rw [hown]
        rfl
  · intro hcondition
    obtain ⟨hcheck, last, done, hprocess, hmain⟩ := main_of_succeeds h
    have haccepted := succeeds_iff_accepted.mp h
    refine ⟨haccepted.valid, ?_, ?_⟩
    · rw [hmain]
      exact (processConfig_ok hprocess).1
    · rcases hcondition with hnone | ⟨hword, hown⟩
      · rw [hnone]
        exact fun _ hpair => nomatch hpair
      · exact listsDistro_of_transform hword hloop hown

/-- Status 0 can be relied upon if and only if something is wrong with the input and `--debug` is
not given, or nothing is wrong and, unless the configuration is empty, the distribution is one word
and each named question has a list of its own. -/
theorem not_silent_iff (sys : System ι) (opts : Options) (files : Files ι) :
    ((main sys opts files).status = 0 → Effective sys opts (main sys opts files)) ↔
      (opts.debug = false ∧ ¬ Accepted sys opts files) ∨
      (Accepted sys opts files ∧ (sys.pairs = [] ∨ OneWord opts.distro ∧
        ∀ pair ∈ sys.pairs, ∀ text, files (entryOf sys opts pair) = some text →
          (ownRequire pair.2 (readlines text)).isSome = true)) := by
  rw [status_eq_zero_iff, ← succeeds_iff_accepted]
  by_cases h : Succeeds sys opts files
  · rw [← effective_iff_of_succeeds h]
    simp [h]
  · have hnot : ¬ Effective sys opts (main sys opts files) :=
      fun heffective => h (succeeds_of_effective heffective)
    simp [h, hnot]

/-- The first question has no list of its own. -/
def listMissing : Text := "LABEL:a\nLABEL:b\nREQUIRE_DISTRO:RH\n".toList

/-- The list of the next question is changed, and the status is 0. -/
theorem next_question_changed :
    (main (plainSystem "M.a=Y\n".toList) plainOptions (oneModule listMissing)).status = 0 ∧
      (main (plainSystem "M.a=Y\n".toList) plainOptions (oneModule listMissing)).files
          "/Q/M.txt".toList = some "LABEL:a\nLABEL:b\nREQUIRE_DISTRO:RH Yocto\n".toList ∧
      ¬ Effective (plainSystem "M.a=Y\n".toList) plainOptions
        (main (plainSystem "M.a=Y\n".toList) plainOptions (oneModule listMissing)) := by
  have hfile : (main (plainSystem "M.a=Y\n".toList) plainOptions (oneModule listMissing)).files
      "/Q/M.txt".toList = some "LABEL:a\nLABEL:b\nREQUIRE_DISTRO:RH Yocto\n".toList := by decide
  refine ⟨by decide, hfile, fun heffective => ?_⟩
  obtain ⟨text, htext, i, hown, -⟩ :=
    heffective.listed ("M".toList, "a".toList) (by decide)
  cases htext.symm.trans hfile
  have hnone : ownRequire "a".toList
      (readlines "LABEL:a\nLABEL:b\nREQUIRE_DISTRO:RH Yocto\n".toList) = none := by decide
  rw [hnone] at hown
  cases hown

end MetaSecurity.Questions
