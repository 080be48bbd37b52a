import MetaSecurity.Library.Shell.Padding
import MetaSecurity.Verity.Encoding
import MetaSecurity.Verity.Boot
import MetaSecurity.Verity.ParseTime

/-!
# The readers of `DM_VERITY_SEPARATE_HASH`

Four places decide between the two modes: the choice of the image types, `verity_setup`,
`process_verity`, and the boot, which reads the value back from the environment file. Here the
setting is any text and not only a number in decimal digits; BitBake puts it into the shell
functions as it stands. `readers_agree_iff` says for which integers the four decisions are the same.
-/

namespace MetaSecurity.Verity

open Library Shell

/-! ## The four decisions -/

/-- Where a build puts the hash tree. -/
inductive Mode where
  | separate
  | appended
deriving DecidableEq

/-- `[ ${SETTING} -eq number ]` with the setting put in by BitBake. A newline in it ends the command
`[`, and what is left of the test is no command. Blanks divide it into words, and only a single word
makes a comparison. -/
def splicedTestEq (setting number : Text) : Bool :=
  !setting.contains '\n' && (fields isBlank setting).length = 1 && testEq setting number

/-- `if verity_hash == "1"` in `get_verity_fstypes`. -/
def fstypesMode (setting : Text) : Mode :=
  if setting = ['1'] then .separate else .appended

/-- `if [ ${DM_VERITY_SEPARATE_HASH} -eq 1 ]` in `verity_setup`. -/
def setupMode (setting : Text) : Mode :=
  if splicedTestEq setting "1".toList then .separate else .appended

/-- `if [ ${DM_VERITY_SEPARATE_HASH} -eq 0 ]` in `process_verity`. -/
def processMode (setting : Text) : Mode :=
  if splicedTestEq setting "0".toList then .appended else .separate

/-- `if [ "${SEPARATE_HASH}" -eq "1" ]` in `dmverity_run`. -/
def bootMode (vars : Variables) : Mode :=
  if isSeparate vars then .separate else .appended

/-! ## What depends on them -/

/-- The image types that `get_verity_fstypes` adds for a recipe with a type to protect. -/
def fstypesIn (mode : Mode) (verityType : Text) : Text :=
  match mode with
  | .separate => verityType ++ ".verity vhash".toList
  | .appended => verityType ++ ".verity".toList

/-- `$OUTPUT_HASH` in a mode. -/
def outputHashIn (mode : Mode) (c : Config) (type : Text) : Text :=
  match mode with
  | .separate => outputFile c type ".vhash".toList
  | .appended => outputFile c type ".verity".toList

/-- `$HASH_OFFSET` in a mode. -/
def hashOffsetIn (mode : Mode) (size : Nat) : Text :=
  match mode with
  | .separate => []
  | .appended => Opt.hashOffset ++ decimal size

/-- The environment file of `process_verity` before it looks at the setting. -/
def environmentOf (tools : Tools) (setting : Text) (size : Nat) (input : Text) : Text :=
  (readLines input).flatMap (environmentLine tools.echo) ++
    tools.echo.output ["DATA_SIZE=".toList ++ decimal size] ++
    tools.echo.output ["SEPARATE_HASH=".toList ++ setting]

/-- `process_verity` for any setting. -/
def processVerityOf (c : Config) (tools : Tools) (setting type : Text) (size : Nat) (input : Text)
    (staging : Staging) : Option Staging :=
  let env := environmentOf tools setting size input
  match processMode setting with
  | .appended => some (Function.update staging (c.envPath c.imageBasename type) (some env))
  | .separate => do
    let rootHash := rootHashOf env
    let rootHi ← half tools rootHash '/'
    let rootLo ← half tools rootHash '%'
    let rootUuid := uuidOf tools rootHi
    let rhashUuid := uuidOf tools rootLo
    let env := env ++ tools.echo.output ["ROOT_UUID=".toList ++ rootUuid] ++
      tools.echo.output ["RHASH_UUID=".toList ++ rhashUuid]
    let wks := tools.echo.output [c.dataPart rootUuid] ++ tools.echo.output [c.hashPart rhashUuid]
    some (Function.update (Function.update staging (c.envPath c.imageBasename type) (some env))
      (c.wksPath type) (some wks))

/-- The four decisions are the same one, the last of them after every successful run of
`process_verity` and the sourcing of its environment file. -/
def ReadersAgree (c : Config) (tools : Tools) (sourcing : Sourcing) (setting type : Text)
    (size : Nat) (input : Text) (staging : Staging) (vars : Variables) : Prop :=
  ∃ mode, fstypesMode setting = mode ∧ setupMode setting = mode ∧ processMode setting = mode ∧
    ∀ staging', processVerityOf c tools setting type size input staging = some staging' →
      ∃ env vars', staging' (c.envPath c.imageBasename type) = some env ∧
        sourcing.source env (beforeSourcing vars) = some vars' ∧ bootMode vars' = mode

/-! ## The decisions on a number -/

theorem splicedTestEq_decimal (m n : Nat) : splicedTestEq (decimal m) (decimal n) = (m == n) := by
  have hfree : ∀ c ∈ decimal m, c ≠ '\n' ∧ isBlank c = false := fun c hc => by
    have hwhite := isWhite_of_isDigit (isDigit_of_mem_decimal hc)
    refine ⟨fun heq => ?_, Bool.eq_false_iff.mpr fun hblank => ?_⟩
    · rw [heq] at hwhite
      exact absurd hwhite (by decide)
    · rw [isWhite_of_isBlank hblank] at hwhite
      cases hwhite
  have hline : (decimal m).contains '\n' = false := by
    rw [List.contains_eq_any_beq, List.any_eq_false]
    intro c hc heq
    exact (hfree c hc).1 (beq_iff_eq.mp heq).symm
  have hword : fields isBlank (decimal m) = [decimal m] :=
    fields_eq_singleton (decimal_ne_nil m) fun c hc => (hfree c hc).2
  rw [splicedTestEq, hline, hword, testEq_decimal]
  rfl

theorem setupMode_decimal (n : Nat) :
    setupMode (decimal n) = if n = 1 then .separate else .appended := by
  have hone : "1".toList = decimal 1 := rfl
  rw [setupMode, hone, splicedTestEq_decimal]
  by_cases h : n = 1 <;> simp [h]

theorem processMode_decimal (n : Nat) :
    processMode (decimal n) = if n = 0 then .appended else .separate := by
  have hzero : "0".toList = decimal 0 := rfl
  rw [processMode, hzero, splicedTestEq_decimal]
  by_cases h : n = 0 <;> simp [h]

/-- The types that are added are those of the first decision. -/
theorem getVerityFstypes_mode {d : Settings} {verityImage verityType setting : Text}
    (himage : d.verityImage = some verityImage) (hends : Python.endsWith verityImage d.pn = true)
    (htype : d.verityType = some verityType) (hsetting : d.verityHash = some setting) :
    getVerityFstypes d = .ok (fstypesIn (fstypesMode setting) verityType) := by
  by_cases h : setting = ['1']
  · have hhash : hashFstype d = ' ' :: vhash := if_pos (h ▸ hsetting)
    have hmode : fstypesMode setting = .separate := if_pos h
    simp only [getVerityFstypes, himage, hends, htype, hhash, hmode]
    rfl
  · have hhash : hashFstype d = [] :=
      if_neg fun hone => h (Option.some_inj.mp (hsetting.symm.trans hone))
    have hmode : fstypesMode setting = .appended := if_neg h
    simp only [getVerityFstypes, himage, hends, htype, hhash, hmode]
    rfl

/-- The words of the `format` call are those of the second decision. -/
theorem setup_mode (c : Config) (type : Text) (size : Nat) :
    outputHash c type = outputHashIn (setupMode (decimal c.separateHash)) c type ∧
      hashOffset c size = hashOffsetIn (setupMode (decimal c.separateHash)) size := by
  rw [setupMode_decimal, outputHash, hashOffset]
  by_cases h : c.separateHash = 1
  · simp [h, outputHashIn, hashOffsetIn]
  · simp [h, outputHashIn, hashOffsetIn]

/-- On a number `process_verity` does what it does for a configuration with this number. -/
theorem processVerityOf_decimal (c : Config) (tools : Tools) (type : Text) (size : Nat)
    (input : Text) (staging : Staging) :
    processVerityOf c tools (decimal c.separateHash) type size input staging =
      processVerity c tools type size input staging := by
  rw [processVerityOf, processVerity, processMode_decimal]
  by_cases h : c.separateHash = 0
  · rw [if_pos h, if_pos h]
    rfl
  · rw [if_neg h, if_neg h]
    rfl

/-! ## The environment file -/

section

variable {blockSize : Nat} {rootHash : RootHash} (report : Report blockSize rootHash)
  (c : Config) (tools : Tools) (size : Nat)

/-- The assignments that come before the mode. -/
def Report.sized : List Assignment :=
  report.assignments ++ [(Var.dataSize, decimal size)]

theorem Report.ordinary_sized : ∀ a ∈ report.sized size, isOrdinaryAssignment a = true := by
  intro a ha
  rcases List.mem_append.mp ha with ha | ha
  · exact report.ordinary_assignments a ha
  · rw [List.mem_singleton.mp ha]
    exact ordinary_decimal size (by decide)

/-- An integer is written behind the assignments of the report as it stands. -/
theorem environmentOf_report {setting : Text} (hslash : '\\' ∉ setting) :
    environmentOf tools setting size (tailFromSecond report.text) =
      assignmentFile (report.sized size) ++
        (assignmentLine (Var.separateHash, setting) ++ '\n' :: assignmentFile []) := by
  -- The part before the mode is the same for every configuration.
  have hcommon := report.commonEnvironment_report (exampleConfig 0) tools size
  have hmode := echo_assignment tools.echo (plain_of_ordinary
    (report.ordinary_common (exampleConfig 0) size) (Var.separateHash, decimal 0)
    (List.mem_append_right _ (List.mem_cons_of_mem _ List.mem_cons_self)))
  have hsplit : report.common (exampleConfig 0) size =
      report.sized size ++ [(Var.separateHash, decimal 0)] := by
    rw [Report.common, Report.sized, List.append_assoc]
    rfl
  have hzero : "SEPARATE_HASH=".toList ++ decimal (exampleConfig 0).separateHash =
      assignmentLine (Var.separateHash, decimal 0) := rfl
  have hfile : assignmentFile (report.sized size ++ [(Var.separateHash, decimal 0)]) =
      assignmentFile (report.sized size) ++
        (assignmentLine (Var.separateHash, decimal 0) ++ ['\n']) := by
    simp [assignmentFile]
  rw [commonEnvironment, hzero, hmode, hsplit, hfile] at hcommon
  have hstart := List.append_cancel_right hcommon
  have hecho : tools.echo.output ["SEPARATE_HASH=".toList ++ setting] =
      "SEPARATE_HASH=".toList ++ setting ++ ['\n'] := by
    refine tools.echo.output_singleton
      (fun hhead => absurd (Option.some.inj hhead : 'S' = '-') (by decide)) fun hmem => ?_
    rcases List.mem_append.mp hmem with hmem | hmem
    · exact absurd hmem (by decide)
    · exact hslash hmem
  rw [environmentOf, hstart, hecho]
  rfl

/-- An integer contains no backslash. -/
theorem slash_not_mem_integer {setting : Text} {n : Int} (h : integerOperand setting = some n) :
    '\\' ∉ setting := by
  intro hmem
  rcases char_of_integer h hmem with hwhite | hdigit | heq | heq
  · exact absurd hwhite (by decide)
  · exact absurd hdigit (by decide)
  · exact absurd heq (by decide)
  · exact absurd heq (by decide)

/-- A boot after a build with a zero takes the appended mode. -/
theorem boot_of_zero (sourcing : PosixSourcing) (vars : Variables)
    (hreport : lastValue Var.separateHash report.assignments = none) {setting word : Text}
    (h : integerOperand setting = some 0) (hword : fields isBlank setting = [word])
    (hline : '\n' ∉ setting) :
    ∃ vars', sourcing.source (environmentOf tools setting size (tailFromSecond report.text))
        (beforeSourcing vars) = some vars' ∧ bootMode vars' = .appended := by
  rw [environmentOf_report report tools size (slash_not_mem_integer h)]
  obtain ⟨front, back, rfl, hfront, hback, hfree, hzero⟩ := exists_padding h hword hline
  have hsized : lastValue Var.separateHash (report.sized size) = none := by
    have hname : Var.separateHash ∉ [Var.dataSize] := by decide
    rw [Report.sized, lastValue_append, hreport]
    exact congrArg (Option.or · none) (lastValue_of_not_mem hname)
  have hbefore : beforeSourcing vars Var.separateHash = notSet := by
    rw [beforeSourcing, assignAll_eq]
    rfl
  have hnotSet : testEq notSet ['1'] = false := by decide
  have hwordZero : testEq word ['1'] = false := by
    have hone : integerOperand ['1'] = some 1 := integerOperand_decimal 1
    simp [testEq, hzero, hone]
  refine ⟨_, sourcing.padded _ [] _ front word back _ (report.ordinary_sized size) (by simp)
    (by decide) (by simp [hzero]) hfree hfront hback, ?_⟩
  -- Either the zero is assigned, or the initial value stays.
  rw [bootMode, isSeparate, assignAll_eq, List.append_nil, lastValue_append, hsized, hbefore]
  by_cases hnil : front = []
  · simp [hnil, lastValue, hwordZero]
  · simp [hnil, lastValue, hnotSet]

/-- A boot after a build with `1` takes the separate mode. -/
theorem boot_of_one (hbc : Reliable tools.bc) (sourcing : Sourcing) (vars : Variables)
    {type : Text} {staging staging' : Staging}
    (hrun : processVerityOf c tools ['1'] type size (tailFromSecond report.text) staging =
      some staging') :
    ∃ env vars', staging' (c.envPath c.imageBasename type) = some env ∧
      sourcing.source env (beforeSourcing vars) = some vars' ∧ bootMode vars' = .separate := by
  have hone : ['1'] = decimal ({ c with separateHash := 1 } : Config).separateHash := by
    change ['1'] = decimal 1
    decide
  have hsame : processVerity { c with separateHash := 1 } tools type size
      (tailFromSecond report.text) staging = some staging' := by
    rw [← processVerityOf_decimal, ← hone]
    exact hrun
  refine ⟨_, _, (processVerity_spec report _ tools size hbc hsame).1,
    sourcing.assignments _ _ (report.ordinary_environment _ size), ?_⟩
  rw [bootMode, isSeparate, assignAll_eq, lastValue_separateHash, ← hone, Option.getD_some]
  exact if_pos (by decide)

/-! ## Agreement -/

/-- The four readers agree on an integer exactly when it is written `1`, or is a zero that contains
no newline and is a single word. -/
theorem readers_agree_iff (hbc : Reliable tools.bc)
    (hreport : lastValue Var.separateHash report.assignments = none) (sourcing : PosixSourcing)
    {setting : Text} {n : Int} (hsetting : integerOperand setting = some n) (type : Text)
    (staging : Staging) (vars : Variables) :
    ReadersAgree c tools sourcing.toSourcing setting type size (tailFromSecond report.text) staging
        vars ↔
      setting = ['1'] ∨
        n = 0 ∧ '\n' ∉ setting ∧ (fields isBlank setting).length = 1 := by
  have hinteger : integerOperand ['0'] = some 0 := integerOperand_decimal 0
  -- The types are chosen by text, the environment by number.
  have hprocess : processMode setting = .appended ↔
      n = 0 ∧ '\n' ∉ setting ∧ (fields isBlank setting).length = 1 := by
    simp [processMode, splicedTestEq, testEq, hsetting, hinteger, and_comm]
  constructor
  · rintro ⟨mode, hfstypes, -, hmode, -⟩
    by_cases hone : setting = ['1']
    · exact .inl hone
    · rw [fstypesMode, if_neg hone] at hfstypes
      exact .inr (hprocess.mp (hmode.trans hfstypes.symm))
  · rintro (rfl | hzero)
    · exact ⟨.separate, rfl, by decide, by decide, fun staging' hrun =>
        boot_of_one report c tools size hbc sourcing.toSourcing vars hrun⟩
    · have hmode := hprocess.mpr hzero
      obtain ⟨rfl, hline, hlength⟩ := hzero
      obtain ⟨word, hword⟩ := List.length_eq_one_iff.mp hlength
      have hne : setting ≠ ['1'] := by
        rintro rfl
        exact absurd hsetting (by decide)
      have hone : integerOperand ['1'] = some 1 := integerOperand_decimal 1
      refine ⟨.appended, if_neg hne, ?_, hmode, fun staging' hrun => ?_⟩
      · simp [setupMode, splicedTestEq, testEq, hsetting, hone]
      · rw [processVerityOf, hmode, Option.some.injEq] at hrun
        obtain ⟨vars', hsource, hboot⟩ :=
          boot_of_zero report tools size sourcing vars hreport hsetting hword hline
        exact ⟨_, vars', by rw [← hrun, Function.update_self], hsource, hboot⟩

end

/-- No line of the short report is about the mode. -/
theorem short_has_no_mode (blockSize : Nat) (rootHash : RootHash) :
    lastValue Var.separateHash (Report.short blockSize rootHash).assignments = none := by
  have hassignments : (Report.short blockSize rootHash).assignments =
      [(variableName blockSizeName, compact (decimal blockSize)),
        (variableName rootHashName, compact rootHash.digits)] := rfl
  rw [hassignments, variableName_eq.1, variableName_eq.2, lastValue_pair, if_neg (by decide),
    if_neg (by decide)]

/-- `readers_agree_iff` for a zero with a blank before it and a carriage return behind it. -/
theorem readers_agree_padded_zero :
    ReadersAgree (exampleConfig 0) workingTools PosixSourcing.linewise.toSourcing [' ', '0', '\r']
        "ext4".toList 8192 (tailFromSecond (Report.short 1024 smallRootHash).text) (fun _ => none)
        (fun _ => []) ↔
      [' ', '0', '\r'] = ['1'] ∨ (0 : Int) = 0 ∧ '\n' ∉ [' ', '0', '\r'] ∧
        (fields isBlank [' ', '0', '\r']).length = 1 :=
  readers_agree_iff (Report.short 1024 smallRootHash) (exampleConfig 0) workingTools 8192
    calculates_calculator.reliable (short_has_no_mode 1024 smallRootHash) PosixSourcing.linewise
    (by decide) _ _ _

/-- For `2` the fragment and the UUIDs are those of a separate hash, but the hash is appended. -/
theorem readers_disagree_on_two :
    integerOperand ['2'] = some 2 ∧
      fstypesMode ['2'] = .appended ∧ setupMode ['2'] = .appended ∧
      processMode ['2'] = .separate ∧
      ¬ ReadersAgree (exampleConfig 2) workingTools PosixSourcing.linewise.toSourcing ['2']
        "ext4".toList 8192 (tailFromSecond (Report.short 1024 smallRootHash).text) (fun _ => none)
        (fun _ => []) := by
  refine ⟨by decide, by decide, by decide, by decide, ?_⟩
  rintro ⟨mode, hfstypes, -, hprocess, -⟩
  exact absurd (hfstypes.trans hprocess.symm) (by decide)

end MetaSecurity.Verity
