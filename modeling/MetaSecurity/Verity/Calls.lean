import MetaSecurity.Verity.Boot
import MetaSecurity.Verity.Uuid

/-!
# The words of the two calls

`verity_setup` calls `veritysetup format`, `dmverity_run` calls `veritysetup create`. Here are the
words of the two calls, and what an option parser reads from them: the values of the options, and
the operands.
-/

namespace MetaSecurity.Verity

open Library Shell

/-! ## Reading a call -/

/-- The values that a call gives to an option. -/
def optionValues (option : Text) (args : List Text) : List Text :=
  (args.filter fun word => option.isPrefixOf word).map fun word => word.drop option.length

/-- The words of a call that are not options. -/
def operands (args : List Text) : List Text :=
  args.filter fun word => !isOption word

/-! ## Words without special characters -/

/-- The characters in the words of a `veritysetup` call. -/
def isCallChar (c : Char) : Bool :=
  isPathChar c || c = '='

theorem callChar_spec {c : Char} (h : isCallChar c = true) :
    isIfs c = false ∧ (c ≠ '*' ∧ c ≠ '?' ∧ c ≠ '[') ∧ c ≠ '\\' := by
  refine ⟨?_, ⟨?_, ?_, ?_⟩, ?_⟩
  · cases hifs : isIfs c with
    | false => rfl
    | true =>
        simp only [isIfs, Bool.or_eq_true, decide_eq_true_eq] at hifs
        rcases hifs with (rfl | rfl) | rfl <;> exact absurd h (by decide)
  all_goals
    rintro rfl
    exact absurd h (by decide)

theorem fields_callWord {t : Text} (hne : t ≠ []) (h : ∀ c ∈ t, isCallChar c = true) :
    fields isIfs t = [t] :=
  fields_eq_singleton hne fun c hc => (callChar_spec (h c hc)).1

theorem isPattern_callWord {t : Text} (h : ∀ c ∈ t, isCallChar c = true) :
    isPattern t = false := by
  rw [isPattern, List.any_eq_false]
  intro c hc
  have hspec := (callChar_spec (h c hc)).2.1
  simp [hspec.1, hspec.2.1, hspec.2.2]

theorem callChar_of_path {t : Text} (h : t.all isPathChar = true) :
    ∀ c ∈ t, isCallChar c = true := fun c hc => by
  simp [isCallChar, List.all_eq_true.mp h c hc]

theorem callChar_of_decimal (n : Nat) : ∀ c ∈ decimal n, isCallChar c = true := fun c hc => by
  simp [isCallChar, isPathChar, Char.isAlphanum, isDigit_of_mem_decimal hc]

theorem callChar_append {s t : Text} (hs : ∀ c ∈ s, isCallChar c = true)
    (ht : ∀ c ∈ t, isCallChar c = true) : ∀ c ∈ s ++ t, isCallChar c = true := fun c hc =>
  (List.mem_append.mp hc).elim (hs c) (ht c)

/-- An option with a number. -/
theorem callChar_option {option : Text} (h : option.all isCallChar = true) (n : Nat) :
    ∀ c ∈ option ++ decimal n, isCallChar c = true :=
  callChar_append (List.all_eq_true.mp h) (callChar_of_decimal n)

/-- A word without `=` is no option and gives no value to one. -/
theorem not_option_of_no_equals {word : Text} (h : '=' ∉ word) :
    isOption word = false ∧ ∀ option : Text, '=' ∈ option → option.isPrefixOf word = false := by
  refine ⟨by simp [isOption, h], fun option hoption => ?_⟩
  cases hstart : option.isPrefixOf word with
  | false => rfl
  | true => exact absurd ((List.isPrefixOf_iff_prefix.mp hstart).subset hoption) h

/-! ## The words of the `format` call -/

/-- The option words that both calls share. -/
def blockSizeOption (blockSize : Nat) : Text :=
  Opt.dataBlockSize ++ decimal blockSize

def hashSizeOption (blockSize : Nat) : Text :=
  Opt.hashBlockSize ++ decimal blockSize

def offsetOptions (separateHash size : Nat) : List Text :=
  if separateHash = 1 then [] else [Opt.hashOffset ++ decimal size]

section

variable (c : Config) (type : Text) (size : Nat)

/-- The words that `SETUP_ARGS` splits into. -/
theorem fields_setupArgs (hout : fields isIfs (output c type) = [output c type])
    (hhash : fields isIfs (outputHash c type) = [outputHash c type]) :
    fields isIfs (setupArgs c type size) =
      blockSizeOption c.dataBlockSize :: hashSizeOption c.hashBlockSize ::
        (offsetOptions c.separateHash size ++ [format, output c type, outputHash c type]) := by
  have hblank : isIfs ' ' = true := by decide
  have hblanks : ∀ n, ∀ x ∈ blanks n, isIfs x = true := by
    intro n x hx
    rw [List.eq_of_mem_replicate hx]
    exact hblank
  have hdata : fields isIfs (blockSizeOption c.dataBlockSize) =
      [blockSizeOption c.dataBlockSize] :=
    fields_callWord (List.append_ne_nil_of_left_ne_nil (by decide) _)
      (callChar_option (by decide) _)
  have hsize : fields isIfs (hashSizeOption c.hashBlockSize) = [hashSizeOption c.hashBlockSize] :=
    fields_callWord (List.append_ne_nil_of_left_ne_nil (by decide) _)
      (callChar_option (by decide) _)
  have hoffset : fields isIfs (hashOffset c size) = offsetOptions c.separateHash size := by
    unfold hashOffset offsetOptions
    split
    · exact fields_nil
    · exact fields_callWord (List.append_ne_nil_of_left_ne_nil (by decide) _)
        (callChar_option (by decide) _)
  have hformat : fields isIfs format = [format] := by decide
  have hshape : setupArgs c type size = blanks 9 ++ (blockSizeOption c.dataBlockSize ++
      ' ' :: (blanks 8 ++ (hashSizeOption c.hashBlockSize ++ ' ' :: (blanks 8 ++
        (hashOffset c size ++ ' ' :: (format ++ ' ' :: (output c type ++
          ' ' :: (outputHash c type ++ blanks 5)))))))) := by
    have hnine : blanks 9 = ' ' :: blanks 8 := rfl
    simp [setupArgs, blockSizeOption, hashSizeOption, hnine]
  -- the continued lines of the script are indented, which leaves blanks between the words
  rw [hshape, fields_append_left (hblanks 9), fields_append_cons hblank, hdata,
    fields_append_left (hblanks 8), fields_append_cons hblank, hsize,
    fields_append_left (hblanks 8), fields_append_cons hblank, hoffset, fields_append_cons hblank,
    hformat, fields_append_cons hblank, hout, fields_append_of_forall (hblanks 5), hhash]
  simp

end

/-! ## Options and operands -/

theorem optionValues_cons_append (option value : Text) (args : List Text) :
    optionValues option ((option ++ value) :: args) = value :: optionValues option args := by
  simp [optionValues]

theorem optionValues_cons_of_not {option word : Text} (h : option.isPrefixOf word = false)
    (args : List Text) : optionValues option (word :: args) = optionValues option args := by
  simp [optionValues, h]

theorem optionValues_append (option : Text) (args args' : List Text) :
    optionValues option (args ++ args') =
      optionValues option args ++ optionValues option args' := by
  simp [optionValues]

theorem operands_append (args args' : List Text) :
    operands (args ++ args') = operands args ++ operands args' := by
  simp [operands]

/-- Words that do not start with an option have no values for it. -/
theorem optionValues_eq_nil {option : Text} {args : List Text}
    (h : ∀ word ∈ args, option.isPrefixOf word = false) : optionValues option args = [] := by
  have hfilter : args.filter (fun word => option.isPrefixOf word) = [] :=
    List.filter_eq_nil_iff.mpr fun word hword => by simp [h word hword]
  rw [optionValues, hfilter, List.map_nil]

theorem operands_cons_of_option {word : Text} (h : isOption word = true) (args : List Text) :
    operands (word :: args) = operands args := by
  simp [operands, h]

theorem operands_eq_nil {args : List Text} (h : ∀ word ∈ args, isOption word = true) :
    operands args = [] :=
  List.filter_eq_nil_iff.mpr fun word hword => by simp [h word hword]

theorem operands_eq_self {args : List Text} (h : ∀ word ∈ args, isOption word = false) :
    operands args = args :=
  List.filter_eq_self.mpr fun word hword => by simp [h word hword]

/-- An option with a value attached is one. -/
theorem isOption_append {option : Text} (h : isOption option = true) (value : Text) :
    isOption (option ++ value) = true := by
  simp only [isOption, Bool.and_eq_true, List.isPrefixOf_iff_prefix, List.contains_iff_mem] at h ⊢
  exact ⟨h.1.trans (List.prefix_append _ _), List.mem_append_left _ h.2⟩

/-- A word that can only be an operand of a call. -/
def IsOperand (word : Text) : Prop :=
  isOption word = false ∧ Opt.dataBlockSize.isPrefixOf word = false ∧
    Opt.hashOffset.isPrefixOf word = false

theorem isOperand_of_no_equals {word : Text} (h : '=' ∉ word) : IsOperand word := by
  obtain ⟨hoption, hstart⟩ := not_option_of_no_equals h
  exact ⟨hoption, hstart _ (by decide), hstart _ (by decide)⟩

theorem isOperand_of_path {word : Text} (h : word.all isPathChar = true) : IsOperand word := by
  refine isOperand_of_no_equals fun hmem => ?_
  exact absurd (List.all_eq_true.mp h _ hmem) (by decide)

/-- A device path does not start like an option. -/
theorem isOperand_of_device {word : Text} (h : word.head? ≠ some '-') : IsOperand word := by
  have hstart : ∀ option : Text, option.head? = some '-' → option.isPrefixOf word = false := by
    intro option hoption
    cases hword : option.isPrefixOf word with
    | false => rfl
    | true =>
        obtain ⟨rest, rfl⟩ := List.isPrefixOf_iff_prefix.mp hword
        rw [List.head?_append, hoption] at h
        exact absurd rfl h
  refine ⟨?_, hstart _ (by decide), hstart _ (by decide)⟩
  rw [isOption, hstart _ (by decide), Bool.false_and]

/-- The words of both calls: the block size, more options, the hash offset unless the hash is
separate, and the operands. -/
def callWords (separateHash blockSize offset : Nat) (options rest : List Text) : List Text :=
  blockSizeOption blockSize :: (options ++ (offsetOptions separateHash offset ++ rest))

/-- The options of both calls, read back. -/
theorem call_options (separateHash blockSize offset : Nat) (options rest : List Text)
    (hoptions : ∀ option ∈ options, isOption option = true ∧
      Opt.dataBlockSize.isPrefixOf option = false ∧ Opt.hashOffset.isPrefixOf option = false)
    (hrest : ∀ word ∈ rest, IsOperand word) :
    optionValues Opt.dataBlockSize (callWords separateHash blockSize offset options rest) =
        [decimal blockSize] ∧
      optionValues Opt.hashOffset (callWords separateHash blockSize offset options rest) =
        (if separateHash = 1 then [] else [decimal offset]) ∧
      operands (callWords separateHash blockSize offset options rest) = rest := by
  have hblock : Opt.hashOffset.isPrefixOf (blockSizeOption blockSize) = false := rfl
  have hblockOption : isOption (blockSizeOption blockSize) = true := isOption_append (by decide) _
  have hoffsets : optionValues Opt.dataBlockSize (offsetOptions separateHash offset) = [] ∧
      optionValues Opt.hashOffset (offsetOptions separateHash offset) =
        (if separateHash = 1 then [] else [decimal offset]) ∧
      operands (offsetOptions separateHash offset) = [] := by
    unfold offsetOptions
    split
    · exact ⟨rfl, rfl, rfl⟩
    · refine ⟨optionValues_cons_of_not rfl _, optionValues_cons_append _ _ _, ?_⟩
      exact operands_cons_of_option (isOption_append (by decide) _) _
  unfold callWords
  refine ⟨?_, ?_, ?_⟩
  · rw [← List.cons_append, optionValues_append, optionValues_append, hoffsets.1, blockSizeOption,
      optionValues_cons_append, optionValues_eq_nil fun word hword => (hoptions word hword).2.1,
      optionValues_eq_nil fun word hword => (hrest word hword).2.1]
    rfl
  · rw [optionValues_cons_of_not hblock, optionValues_append, optionValues_append, hoffsets.2.1,
      optionValues_eq_nil fun word hword => (hoptions word hword).2.2,
      optionValues_eq_nil fun word hword => (hrest word hword).2.2, List.nil_append,
      List.append_nil]
  · rw [operands_cons_of_option hblockOption, operands_append, operands_append, hoffsets.2.2,
      operands_eq_nil fun word hword => (hoptions word hword).1,
      operands_eq_self fun word hword => (hrest word hword).1]
    rfl

/-! ## The two calls -/

section

variable {c : Config} {tools : Tools} {rootHash : RootHash}

theorem imageType_path (c : Config) : c.imageType.all isPathChar = true := c.plain _ (by simp)

theorem outputFile_path (c : Config) {extension : Text} (h : extension.all isPathChar = true) :
    (outputFile c c.imageType extension).all isPathChar = true := by
  have hname : c.imageName.all isPathChar = true := c.plain _ (by simp)
  have hdot : isPathChar '.' = true := by decide
  simp only [outputFile, List.all_append, List.all_cons, hname, imageType_path, h, hdot,
    Bool.and_self]

theorem output_path (c : Config) : (output c c.imageType).all isPathChar = true :=
  outputFile_path c (by decide)

theorem outputHash_path (c : Config) : (outputHash c c.imageType).all isPathChar = true := by
  unfold outputHash
  split <;> exact outputFile_path c (by decide)

/-- The `format` call. -/
theorem expand_setupArgs (c : Config) (g : PathnameExpansion) (size : Nat) :
    expand g (setupArgs c c.imageType size) =
      callWords c.separateHash c.dataBlockSize size [hashSizeOption c.hashBlockSize]
        [format, output c c.imageType, outputHash c c.imageType] := by
  have hfile : ∀ extension, outputFile c c.imageType extension ≠ [] := fun extension =>
    List.append_ne_nil_of_left_ne_nil (List.append_ne_nil_of_right_ne_nil _ (by simp)) _
  have hout : fields isIfs (output c c.imageType) = [output c c.imageType] :=
    fields_callWord (hfile _) (callChar_of_path (output_path c))
  have hhash : fields isIfs (outputHash c c.imageType) = [outputHash c c.imageType] := by
    refine fields_callWord ?_ (callChar_of_path (outputHash_path c))
    unfold outputHash
    split <;> exact hfile _
  have hfields := fields_setupArgs c c.imageType size hout hhash
  have hpattern : ∀ word ∈ fields isIfs (setupArgs c c.imageType size), isPattern word = false := by
    intro word hword
    refine isPattern_callWord ?_
    rw [hfields] at hword
    simp only [List.mem_cons, List.mem_append, List.not_mem_nil, or_false] at hword
    rcases hword with rfl | rfl | hword | rfl | rfl | rfl
    · exact callChar_option (by decide) _
    · exact callChar_option (by decide) _
    · unfold offsetOptions at hword
      split at hword
      · cases hword
      · rw [List.mem_singleton.mp hword]
        exact callChar_option (by decide) _
    · exact List.all_eq_true.mp (by decide)
    · exact callChar_of_path (output_path c)
    · exact callChar_of_path (outputHash_path c)
  rw [expand_of_no_pattern g hpattern, hfields]
  rfl

theorem expand_callWord (g : PathnameExpansion) {t : Text} (hne : t ≠ [])
    (h : ∀ c ∈ t, isCallChar c = true) : expand g t = [t] := by
  rw [expand_of_no_pattern g, fields_callWord hne h]
  rw [fields_callWord hne h]
  intro word hword
  rw [List.mem_singleton.mp hword]
  exact isPattern_callWord h

theorem pathChar_of_uuidChar {t : Text} (h : ∀ c ∈ t, isUuidChar c = true) :
    t.all isPathChar = true := by
  have hall : ∀ d ∈ '-' :: hexAlphabet, isPathChar d = true :=
    List.all_eq_true.mp (by decide)
  refine List.all_eq_true.mpr fun c hc => hall c ?_
  have hchar := h c hc
  simp only [isUuidChar, isHexDigit, Bool.or_eq_true, List.contains_iff_mem, decide_eq_true_eq]
    at hchar
  rcases hchar with hchar | rfl
  · exact List.mem_cons_of_mem _ hchar
  · exact List.mem_cons_self

theorem halfUuid_path (rootHash : RootHash) (operator : Char) :
    (partuuidPath (halfUuid rootHash operator)).all isPathChar = true := by
  have huuid := pathChar_of_uuidChar (isUuidChar_of_mem_uuidText
    (hex_printed (hex_halfDigits rootHash operator)))
  have hfront : "/dev/disk/by-partuuid/".toList.all isPathChar = true := by decide
  unfold partuuidPath
  rw [List.all_append, hfront, Bool.true_and]
  exact huuid

theorem partuuidPath_ne_nil (uuid : Text) : partuuidPath uuid ≠ [] :=
  List.append_ne_nil_of_left_ne_nil (by decide) _

theorem rootHash_path (rootHash : RootHash) : rootHash.digits.all isPathChar = true :=
  pathChar_of_uuidChar (isUuidChar_of_hex rootHash.hex)

theorem rootHash_ne_nil (rootHash : RootHash) : rootHash.digits ≠ [] := by
  intro hnil
  have hlength := rootHash.length_eq
  rw [hnil] at hlength
  cases hlength

/-- The boot is in the mode of the build. -/
theorem isSeparate_eq {set : Variables} (h : set Var.separateHash = decimal c.separateHash) :
    isSeparate set = decide (c.separateHash = 1) := by
  have hone : "1".toList = decimal 1 := by decide
  rw [isSeparate, h, hone, testEq_decimal]
  rfl

/-- The `create` call with the variables of the environment file. -/
theorem createCall_eq {set : Variables} {size blockSize : Nat}
    (hmode : set Var.separateHash = decimal c.separateHash)
    (hblock : set Var.dataBlockSize = decimal blockSize)
    (hsize : set Var.dataSize = decimal size) (hroot : set Var.rootHash = rootHash.digits)
    (g : PathnameExpansion) {data : Text} (hdata : expand g data = [data])
    (hhash : expand g (hashDevice set data) = [hashDevice set data]) :
    createCall g (createOptions set) data (hashDevice set data) (set Var.rootHash) =
      callWords c.separateHash blockSize size []
        [create, rootfs, data, hashDevice set data, rootHash.digits] := by
  have hseparate := isSeparate_eq hmode
  have hword : ∀ option : Text, option ≠ [] → option.all isCallChar = true → ∀ n,
      expand g (option ++ decimal n) = [option ++ decimal n] := fun option hne hchars n =>
    expand_callWord g (List.append_ne_nil_of_left_ne_nil hne _) (callChar_option hchars n)
  have hoptions : (createOptions set).flatMap (expand g) =
      blockSizeOption blockSize :: offsetOptions c.separateHash size := by
    unfold createOptions offsetOptions
    rw [hseparate, hblock, hsize]
    by_cases h : c.separateHash = 1
    · rw [if_pos (by simpa using h), if_pos h, List.flatMap_singleton,
        hword _ (by decide) (by decide)]
      rfl
    · rw [if_neg (by simpa using h), if_neg h, List.flatMap_cons, List.flatMap_singleton,
        hword _ (by decide) (by decide), hword _ (by decide) (by decide)]
      rfl
  have hrootWord : expand g rootHash.digits = [rootHash.digits] :=
    expand_callWord g (rootHash_ne_nil rootHash) (callChar_of_path (rootHash_path rootHash))
  rw [createCall, hoptions, hdata, hhash, hroot, hrootWord, callWords]
  simp

/-- The calls of a run that found its device. -/
theorem calls_of_found {boot : Boot} {fuel : Nat} {env data : Text} {vars set : Variables}
    {mappings : List Mapping}
    (hsource : boot.sourcing.source env (beforeSourcing vars) = some set)
    (hfound : awaited boot set fuel = .found data) :
    (dmverityRun boot fuel env vars mappings).calls =
      [createCall boot.pathname (createOptions set) data (hashDevice set data)
        (set Var.rootHash)] := by
  simp only [dmverityRun, hsource, afterSourcing, hfound, setupAndMount]
  split <;> rfl

/-- A run makes no other calls. -/
theorem found_of_mem_calls {boot : Boot} {fuel : Nat} {env : Text} {vars set : Variables}
    {mappings : List Mapping} {words : List Text}
    (hsource : boot.sourcing.source env (beforeSourcing vars) = some set)
    (h : words ∈ (dmverityRun boot fuel env vars mappings).calls) :
    ∃ data, awaited boot set fuel = .found data := by
  cases hfound : awaited boot set fuel with
  | found data => exact ⟨data, rfl⟩
  | gaveUp =>
      simp only [dmverityRun, hsource, afterSourcing, hfound, endedEarly] at h
      cases h
  | waiting =>
      simp only [dmverityRun, hsource, afterSourcing, hfound, endedEarly] at h
      cases h

end

end MetaSecurity.Verity
