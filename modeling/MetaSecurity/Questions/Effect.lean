import MetaSecurity.Questions.Rewriting

/-!
# What a run does to the questions files

The run is a fold of file rewritings over the pairs of the configuration. `transform_spec` gives
the contents of every file after it, and `questions_updated` says that, when each question has a
`REQUIRE_DISTRO` of its own, exactly these lines have changed.
-/

namespace MetaSecurity.Questions

open Library Python

variable {ι : Type*} [DecidableEq ι] {sys : System ι} {opts : Options} {files : Files ι}

/-! ## The loop -/

/-- The directory entry of a module's questions file. -/
def entryOf (sys : System ι) (opts : Options) (pair : Coordinates) : ι :=
  sys.locate (questionsFile opts pair.1)

/-- The questions that are named for an entry, in order. -/
def identsAt (sys : System ι) (opts : Options) (pairs : List Coordinates) (entry : ι) :
    List Text :=
  (pairs.filter fun pair => entryOf sys opts pair = entry).map Prod.snd

/-- The contents of a file after the questions named for it have been seen to. -/
def rewrittenText (distro : Text) (idents : List Text) (text : Text) : Text :=
  if idents = [] then text else (rewriteAll distro (readlines text) idents).flatten

/-- What one successful step does. -/
theorem xformFile_ok {sys : System ι} {files files' : Files ι} {qfile distro qlabel : Text}
    (h : xformFile sys files qfile distro qlabel = (files', none)) :
    ∃ text out, files (sys.locate qfile) = some text ∧
      addRequires qlabel distro (readlines text) = .ok out ∧
        files' = Function.update files (sys.locate qfile) (some out.flatten) := by
  unfold xformFile at h
  cases hfile : files (sys.locate qfile) with
  | none => simp [hfile] at h
  | some text =>
      cases hreading : sys.reading qfile files with
      | some raised => simp [hfile, hreading] at h
      | none =>
          simp only [hfile, hreading] at h
          cases hout : addRequires qlabel distro (readlines text) with
          | error e => simp [hout] at h
          | ok out =>
              simp only [hout] at h
              cases hreplacing : sys.replacing qfile files with
              | some failure => simp [hreplacing] at h
              | none =>
                  simp only [hreplacing, Prod.mk.injEq, and_true] at h
                  exact ⟨text, out, rfl, hout, h.symm⟩

/-- The steps of a loop that raises nothing. -/
theorem transform_cons_ok {sys : System ι} {opts : Options} {pair : Coordinates}
    {pairs processed : List Coordinates} {files files' : Files ι}
    (h : transform sys opts (pair :: pairs) files = (files', processed, none)) :
    ∃ next rest, xformFile sys files (questionsFile opts pair.1) opts.distro pair.2 =
        (next, none) ∧ transform sys opts pairs next = (files', rest, none) ∧
      processed = pair :: rest := by
  rw [transform] at h
  cases hstep : xformFile sys files (questionsFile opts pair.1) opts.distro pair.2 with
  | mk next raised =>
      cases raised with
      | some raised => simp [hstep] at h
      | none =>
          simp only [hstep] at h
          cases hrest : transform sys opts pairs next with
          | mk last result =>
              obtain ⟨rest, raised⟩ := result
              simp only [hrest, Prod.mk.injEq] at h
              obtain ⟨rfl, rfl, rfl⟩ := h
              exact ⟨next, rest, rfl, hrest, rfl⟩

/-- Seeing to one question and then to others. -/
theorem rewrittenText_cons {distro : Text} (hword : OneWord distro) (ident : Text)
    (idents : List Text) (text : Text) :
    rewrittenText distro idents (rewrite distro (readlines text) ident).flatten =
      rewrittenText distro (ident :: idents) text := by
  unfold rewrittenText
  rw [readlines_rewrite hword, if_neg (List.cons_ne_nil ident idents)]
  cases idents with
  | nil => rfl
  | cons other idents => rfl

/-- After a loop that raises nothing, every pair was processed, and each file has the contents that
the questions named for it make of the old ones. -/
theorem transform_spec {sys : System ι} {opts : Options} (hword : OneWord opts.distro)
    {pairs processed : List Coordinates} {files files' : Files ι}
    (h : transform sys opts pairs files = (files', processed, none)) (entry : ι) :
    files' entry = (files entry).map
      (rewrittenText opts.distro (identsAt sys opts pairs entry)) := by
  induction pairs generalizing files processed with
  | nil =>
      cases h
      cases files' entry <;> rfl
  | cons pair pairs ih =>
      obtain ⟨next, rest, hstep, hrest, -⟩ := transform_cons_ok h
      obtain ⟨text, out, hfile, hout, rfl⟩ := xformFile_ok hstep
      -- the later questions find what this one wrote
      have hnext := ih hrest
      by_cases hentry : entryOf sys opts pair = entry
      · have hidents : identsAt sys opts (pair :: pairs) entry =
            pair.2 :: identsAt sys opts pairs entry := by
          simp [identsAt, hentry]
        have hhere : sys.locate (questionsFile opts pair.1) = entry := hentry
        rw [hhere] at hfile hnext
        rw [hnext, Function.update_self, hfile, hidents, (addRequires_ok hout).1]
        exact congrArg some (rewrittenText_cons hword pair.2 _ text)
      · have hidents : identsAt sys opts (pair :: pairs) entry =
            identsAt sys opts pairs entry := by
          simp [identsAt, hentry]
        have helse : entry ≠ sys.locate (questionsFile opts pair.1) := fun heq => hentry heq.symm
        rw [hnext, Function.update_of_ne helse, hidents]

/-! ## Success -/

/-- The pairs that the configuration generates. -/
def System.pairs (sys : System ι) : List Coordinates :=
  match sys.config with
  | none => []
  | some text => (getConfig (readlines text)).1

/-- The settings of the configuration, as coordinates or exceptions. -/
def settings (text : Text) : List (Except ValueError Coordinates) :=
  ((readlines text).filter isSetting).map coordinates

/-- The generated pairs are the settings up to the first that is badly formatted. -/
theorem getConfig_spec (ls : List Text) :
    ((getConfig ls).2 = none ∧
      (ls.filter isSetting).map coordinates = (getConfig ls).1.map .ok) ∨
    ∃ e rest, (getConfig ls).2 = some e ∧
      (ls.filter isSetting).map coordinates = (getConfig ls).1.map .ok ++ .error e :: rest := by
  induction ls with
  | nil => exact Or.inl ⟨rfl, rfl⟩
  | cons line rest ih =>
      rw [getConfig]
      cases hsetting : isSetting line with
      | false =>
          rw [List.filter_cons_of_neg (by simp [hsetting])]
          exact ih
      | true =>
          rw [List.filter_cons_of_pos hsetting, List.map_cons]
          cases hcoordinates : coordinates line with
          | error e => exact Or.inr ⟨e, _, rfl, rfl⟩
          | ok pair =>
              rcases ih with ⟨hnone, hmap⟩ | ⟨e, others, hsome, hmap⟩
              · exact Or.inl ⟨hnone, congrArg (Except.ok pair :: ·) hmap⟩
              · exact Or.inr ⟨e, others, hsome, congrArg (Except.ok pair :: ·) hmap⟩

/-- A loop ends with all pairs processed, or at one of them with an exception. -/
theorem transform_processed {pairs processed : List Coordinates} {last : Files ι}
    {raised : Option Raised} (h : transform sys opts pairs files = (last, processed, raised)) :
    (raised = none ∧ processed = pairs) ∨
      ∃ pair rest, raised.isSome = true ∧ pairs = processed ++ pair :: rest := by
  induction pairs generalizing files processed with
  | nil =>
      cases h
      exact Or.inl ⟨rfl, rfl⟩
  | cons pair pairs ih =>
      rw [transform] at h
      cases hstep : xformFile sys files (questionsFile opts pair.1) opts.distro pair.2 with
      | mk next failure =>
          cases failure with
          | some failure =>
              simp only [hstep, Prod.mk.injEq] at h
              obtain ⟨-, rfl, rfl⟩ := h
              exact Or.inr ⟨pair, pairs, rfl, rfl⟩
          | none =>
              simp only [hstep] at h
              cases hrest : transform sys opts pairs next with
              | mk final result =>
                  obtain ⟨done, outcome⟩ := result
                  simp only [hrest, Prod.mk.injEq] at h
                  obtain ⟨rfl, rfl, rfl⟩ := h
                  rcases ih hrest with ⟨hnone, rfl⟩ | ⟨other, others, hsome, rfl⟩
                  · exact Or.inl ⟨hnone, rfl⟩
                  · exact Or.inr ⟨other, others, hsome, rfl⟩

/-- Without an exception, all settings were processed. -/
theorem processConfig_ok {last : Files ι} {processed : List Coordinates}
    (h : processConfig sys opts files = (last, processed, none)) :
    (∃ text, sys.config = some text ∧ settings text = processed.map .ok) ∧
      transform sys opts sys.pairs files = (last, processed, none) := by
  unfold processConfig at h
  unfold System.pairs
  cases hconfig : sys.config with
  | none => simp [hconfig] at h
  | some text =>
      simp only [hconfig] at h
      cases hloop : transform sys opts (getConfig (readlines text)).1 files with
      | mk final result =>
          obtain ⟨done, outcome⟩ := result
          cases outcome with
          | some failure => simp [hloop] at h
          | none =>
              simp only [hloop, Prod.mk.injEq] at h
              obtain ⟨rfl, rfl, hmalformed⟩ := h
              have hnone := Option.map_eq_none_iff.mp hmalformed
              rcases transform_processed hloop with ⟨-, hdone⟩ | ⟨pair, rest, hsome, -⟩
              · rcases getConfig_spec (readlines text) with ⟨-, hmap⟩ | ⟨e, others, hsome, -⟩
                · exact ⟨⟨text, rfl, by rw [settings, hmap, hdone]⟩, rfl⟩
                · rw [hnone] at hsome
                  cases hsome
              · cases hsome

/-- The script ends without an exception. -/
def Succeeds (sys : System ι) (opts : Options) (files : Files ι) : Prop :=
  (main sys opts files).caught = []

/-- A run without an exception. -/
theorem main_of_succeeds (h : Succeeds sys opts files) : checkArgs sys opts = none ∧
    ∃ last processed, processConfig sys opts files = (last, processed, none) ∧
      main sys opts files = ⟨last, processed, [], none⟩ := by
  have hrest : ∀ caught, (mainRest sys opts files caught).caught = [] → caught = [] ∧
      ∃ last processed, processConfig sys opts files = (last, processed, none) ∧
        mainRest sys opts files caught = ⟨last, processed, [], none⟩ := by
    intro caught hcaught
    unfold mainRest at hcaught ⊢
    cases hprocess : processConfig sys opts files with
    | mk last result =>
        obtain ⟨processed, raised⟩ := result
        simp only [hprocess] at hcaught ⊢
        cases raised with
        | none =>
            cases hcaught
            exact ⟨rfl, last, processed, rfl, rfl⟩
        | some raised =>
            exact absurd hcaught (List.append_ne_nil_of_right_ne_nil _ (List.cons_ne_nil _ _))
  unfold Succeeds at h
  unfold main at h ⊢
  cases hcheck : checkArgs sys opts with
  | none =>
      simp only [hcheck] at h
      exact ⟨rfl, (hrest [] h).2⟩
  | some e =>
      simp only [hcheck] at h
      split at h
      · exact absurd (hrest _ h).1 (List.cons_ne_nil _ _)
      · cases h

/-- Then the loop ran over all pairs. -/
theorem transform_of_succeeds (h : Succeeds sys opts files) :
    ∃ processed, transform sys opts sys.pairs files =
      ((main sys opts files).files, processed, none) := by
  obtain ⟨-, last, processed, hprocess, hmain⟩ := main_of_succeeds h
  rw [hmain]
  exact ⟨processed, (processConfig_ok hprocess).2⟩

/-! ## The closed form -/

/-- The line with the distribution at its end, unless the field lists it already. -/
def withDistroOnce (distro line : Text) : Text :=
  if listed distro line then line else withDistro distro line

/-- The lines of a file in which the named questions' own lists of distributions list the
distribution. -/
def expected (distro : Text) (idents : List Text) (lines : List Text) : List Text :=
  lines.mapIdx fun i line =>
    if ∃ ident ∈ idents, ownRequire ident lines = some i then withDistroOnce distro line else line

/-- The contents of a questions file after the run: those of a file for which no question is named
stay, the others are read and written line by line. -/
def expectedText (distro : Text) (idents : List Text) (text : Text) : Text :=
  if idents = [] then text else (expected distro idents (readlines text)).flatten

/-- The question has a list of distributions of its own, with one colon. -/
def HasOwnList (ident : Text) (lines : List Text) : Prop :=
  ∃ i, ownRequire ident lines = some i ∧ ∃ line ∈ lines[i]?, (splitTwo ':' line).isSome = true

/-- Each question that is named for a file has such a list in it. -/
def WellPlaced (sys : System ι) (opts : Options) (files : Files ι)
    (pairs : List Coordinates) : Prop :=
  ∀ pair ∈ pairs, ∀ text, files (entryOf sys opts pair) = some text →
    HasOwnList pair.2 (readlines text)

/-- A line with one colon. -/
theorem updated_eq_withDistroOnce (distro : Text) {line : Text}
    (h : (splitTwo ':' line).isSome = true) : updated distro line = withDistroOnce distro line := by
  obtain ⟨⟨label, distros⟩, hsplit⟩ := Option.isSome_iff_exists.mp h
  have hcheck : checkContains line distro = .ok (listed distro line) := by
    rw [checkContains, hsplit, listed, afterFirst_of_splitTwo hsplit]
  unfold updated withDistroOnce
  rw [hcheck]
  cases listed distro line <;> rfl

/-- When the named questions have lists of their own, these are rewritten. -/
theorem rewriteAll_eq_expected {distro : Text} (hword : OneWord distro) {lines idents : List Text}
    (h : ∀ ident ∈ idents, HasOwnList ident lines) :
    rewriteAll distro lines idents = expected distro idents lines := by
  refine List.ext_getElem? fun i => ?_
  have hsame : ∀ ident ∈ idents, requireAfter ident lines = ownRequire ident lines := by
    intro ident hident
    obtain ⟨j, hj, -⟩ := h ident hident
    rw [hj, requireAfter_of_ownRequire hj]
  have hlands : (∃ ident ∈ idents, requireAfter ident lines = some i) ↔
      ∃ ident ∈ idents, ownRequire ident lines = some i :=
    exists_congr fun ident => and_congr_right fun hident => by rw [hsame ident hident]
  rw [getElem?_rewriteAll hword, expected, List.getElem?_mapIdx]
  refine Option.map_congr fun line hline => ?_
  simp only [hlands]
  split
  · rename_i hown
    obtain ⟨ident, hident, hi⟩ := hown
    obtain ⟨j, hj, found, hfound, hcolon⟩ := h ident hident
    cases hi.symm.trans hj
    cases hline.symm.trans (Option.mem_def.mp hfound)
    exact updated_eq_withDistroOnce distro hcolon
  · rfl

/-- The order and the repetition of the questions do not matter. -/
theorem expectedText_congr (distro : Text) {idents idents' : List Text}
    (h : ∀ ident, ident ∈ idents ↔ ident ∈ idents') (text : Text) :
    expectedText distro idents text = expectedText distro idents' text := by
  have hnil : idents = [] ↔ idents' = [] := by
    simp only [List.eq_nil_iff_forall_not_mem, h]
  simp only [expectedText, expected, hnil, h]

/-- A question is named for an entry by one of the pairs. -/
theorem mem_identsAt {sys : System ι} {opts : Options} {pairs : List Coordinates} {entry : ι}
    {ident : Text} : ident ∈ identsAt sys opts pairs entry ↔
      ∃ pair ∈ pairs, entryOf sys opts pair = entry ∧ pair.2 = ident := by
  simp [identsAt, and_assoc]

/-- The files after a run without an exception. -/
theorem files_of_succeeds {sys : System ι} {opts : Options} {files : Files ι}
    (hword : OneWord opts.distro) (hplaced : WellPlaced sys opts files sys.pairs)
    (h : Succeeds sys opts files) (entry : ι) :
    (main sys opts files).files entry = (files entry).map
      (expectedText opts.distro (identsAt sys opts sys.pairs entry)) := by
  obtain ⟨processed, hloop⟩ := transform_of_succeeds h
  rw [transform_spec hword hloop entry]
  refine Option.map_congr fun text htext => ?_
  have hown : ∀ ident ∈ identsAt sys opts sys.pairs entry, HasOwnList ident (readlines text) := by
    intro ident hident
    obtain ⟨pair, hpair, hentry, rfl⟩ := mem_identsAt.mp hident
    exact hplaced pair hpair text (hentry ▸ htext)
  unfold rewrittenText expectedText
  rw [rewriteAll_eq_expected hword hown]

/-- After a run without an exception, each file is as it was, except that the own
`REQUIRE_DISTRO` line of each question named for it lists the distribution and that the lines of a
file for which a question is named end in newlines; and any other configuration with the same
pairs, in any order and repetition, leads to the same files. -/
theorem questions_updated (sys : System ι) (opts : Options) (files : Files ι)
    (hword : OneWord opts.distro) (hplaced : WellPlaced sys opts files sys.pairs)
    (hsucceeds : Succeeds sys opts files) :
    (∀ entry, (main sys opts files).files entry = (files entry).map
      (expectedText opts.distro (identsAt sys opts sys.pairs entry))) ∧
    ∀ config, (∀ pair, pair ∈ System.pairs { sys with config := config } ↔ pair ∈ sys.pairs) →
      Succeeds { sys with config := config } opts files →
        (main { sys with config := config } opts files).files = (main sys opts files).files := by
  refine ⟨files_of_succeeds hword hplaced hsucceeds, fun config hpairs hother => ?_⟩
  have hplaced' : WellPlaced { sys with config := config } opts files
      (System.pairs { sys with config := config }) :=
    fun pair hpair => hplaced pair ((hpairs pair).mp hpair)
  funext entry
  rw [files_of_succeeds hword hplaced' hother entry,
    files_of_succeeds hword hplaced hsucceeds entry]
  refine Option.map_congr fun text _ => expectedText_congr _ (fun ident => ?_) text
  rw [mem_identsAt, mem_identsAt]
  exact exists_congr fun pair => and_congr_left fun _ => hpairs pair

/-! ## A directory with one module -/

/-- A system without failures, with the given configuration. -/
def plainSystem (config : Text) : System Text where
  questionsIsDir := true
  configIsFile := true
  config := some config
  configFailure := .ioError []
  locate := id
  reading _ _ := none
  replacing _ _ := none
  unpackText _ := []

/-- The arguments that the recipe gives. -/
def plainOptions : Options where
  configFile := "/config".toList
  questionsDir := "/Q".toList
  distro := "Yocto".toList
  debug := false

/-- A questions directory with the file of one module. -/
def oneModule (text : Text) : Files Text := fun path =>
  if path = "/Q/M.txt".toList then some text else none

/-- Two questions of a module. -/
def twoQuestions : Text := "LABEL:a\nREQUIRE_DISTRO:RH\nLABEL:b\nREQUIRE_DISTRO:RH\n".toList

/-- The questions of a file in which both have lists of their own. -/
theorem wellPlaced_oneModule {text : Text} {pairs : List Coordinates}
    (h : ∀ pair ∈ pairs, pair.1 = "M".toList ∧ HasOwnList pair.2 (readlines text)) (config : Text) :
    WellPlaced (plainSystem config) plainOptions (oneModule text) pairs := by
  intro pair hpair found hfound
  obtain ⟨hmodule, hlist⟩ := h pair hpair
  have hfile : oneModule text (entryOf (plainSystem config) plainOptions pair) = some text := by
    rw [entryOf, hmodule]
    rfl
  cases hfound.symm.trans hfile
  exact hlist

/-- One of the two questions is named. -/
theorem questions_updated_second :
    Succeeds (plainSystem "M.b=Y\n".toList) plainOptions (oneModule twoQuestions) ∧
    (∀ entry, (main (plainSystem "M.b=Y\n".toList) plainOptions (oneModule twoQuestions)).files
        entry = (oneModule twoQuestions entry).map (expectedText plainOptions.distro
          (identsAt (plainSystem "M.b=Y\n".toList) plainOptions
            (plainSystem "M.b=Y\n".toList).pairs entry))) := by
  have hsucceeds : Succeeds (plainSystem "M.b=Y\n".toList) plainOptions
      (oneModule twoQuestions) := by
    unfold Succeeds
    decide
  have hplaced : WellPlaced (plainSystem "M.b=Y\n".toList) plainOptions (oneModule twoQuestions)
      (plainSystem "M.b=Y\n".toList).pairs := by
    refine wellPlaced_oneModule (fun pair hpair => ?_) _
    have hpairs : (plainSystem "M.b=Y\n".toList).pairs = [("M".toList, "b".toList)] := by decide
    rw [hpairs, List.mem_singleton] at hpair
    rw [hpair]
    exact ⟨rfl, 3, by decide, "REQUIRE_DISTRO:RH\n".toList, by decide, by decide⟩
  have hdistro : OneWord plainOptions.distro :=
    ⟨by decide, List.forall_iff_forall_mem.mp (by decide)⟩
  exact ⟨hsucceeds, (questions_updated _ plainOptions _ hdistro hplaced hsucceeds).1⟩

/-- The same questions with other line endings. -/
def carriageReturns : Text := "LABEL:a\r\nREQUIRE_DISTRO:RH\r\n".toList

/-- The lines that no question is named for do not stay as they are in the file. -/
theorem carriage_returns_lost :
    Succeeds (plainSystem "M.a=Y\n".toList) plainOptions (oneModule carriageReturns) ∧
      WellPlaced (plainSystem "M.a=Y\n".toList) plainOptions (oneModule carriageReturns)
        (plainSystem "M.a=Y\n".toList).pairs ∧
      (main (plainSystem "M.a=Y\n".toList) plainOptions (oneModule carriageReturns)).files
          "/Q/M.txt".toList ≠
        some (expected plainOptions.distro ["a".toList] (lines carriageReturns)).flatten := by
  refine ⟨by unfold Succeeds; decide, ?_, by decide⟩
  refine wellPlaced_oneModule (fun pair hpair => ?_) _
  have hpairs : (plainSystem "M.a=Y\n".toList).pairs = [("M".toList, "a".toList)] := by decide
  rw [hpairs, List.mem_singleton] at hpair
  rw [hpair]
  exact ⟨rfl, 1, by decide, "REQUIRE_DISTRO:RH\n".toList, by decide, by decide⟩

end MetaSecurity.Questions
