import MetaSecurity.Verity.Environment

/-!
# Which root hashes survive as UUIDs

The two UUIDs of separate mode are meant to contain the root hash: the high half in `ROOT_UUID`, the
low half in `RHASH_UUID`. `uuid_encoding_iff` gives the root hashes for which they do. The padding
of eight zeros is too short for a half that starts with nine or more.
-/

namespace MetaSecurity.Verity

open Library Shell

/-- The environment file assigns two well-formed UUIDs which together are the root hash. -/
def EncodesRootHash (rootHash : RootHash) (env : Text) : Prop :=
  ∃ root rhash, assignedValue Var.rootUuid env = some root ∧
    assignedValue Var.rhashUuid env = some rhash ∧ IsUuid root ∧ IsUuid rhash ∧
    withoutHyphens root ++ withoutHyphens rhash = rootHash.digits

/-- The UUIDs of the environment file of separate mode. -/
theorem encodes_environment_iff {blockSize : Nat} {rootHash : RootHash}
    (report : Report blockSize rootHash) {c : Config} (hmode : c.separateHash ≠ 0) (size : Nat) :
    EncodesRootHash rootHash (assignmentFile (report.environment c size)) ↔
      IsUuid (halfUuid rootHash '/') ∧ IsUuid (halfUuid rootHash '%') := by
  have hplain := report.plain_environment c size
  obtain ⟨hroot, hrhash⟩ := lastValue_uuids report c size hmode
  have hhalves : halfDigits rootHash '/' ++ halfDigits rootHash '%' = rootHash.digits := by
    simp [halfDigits]
  constructor
  · rintro ⟨root, rhash, hassigned, hassigned', huuid, huuid', -⟩
    rw [assignedValue_file hplain, hroot, Option.some.injEq] at hassigned
    rw [assignedValue_file hplain, hrhash, Option.some.injEq] at hassigned'
    rw [hassigned, hassigned']
    exact ⟨huuid, huuid'⟩
  · rintro ⟨huuid, huuid'⟩
    refine ⟨_, _, (assignedValue_file hplain _).trans hroot,
      (assignedValue_file hplain _).trans hrhash, huuid, huuid', ?_⟩
    obtain ⟨hiff, hdigits⟩ := halfUuid_spec rootHash '/'
    obtain ⟨hiff', hdigits'⟩ := halfUuid_spec rootHash '%'
    rw [hdigits (hiff.mp huuid), hdigits' (hiff'.mp huuid'), hhalves]

/-- In separate mode `process_verity` writes an environment file whose UUIDs contain the root hash
exactly when neither half of the root hash starts with more than eight zeros. -/
theorem uuid_encoding_iff {blockSize : Nat} {rootHash : RootHash}
    (report : Report blockSize rootHash) (c : Config) (hmode : c.separateHash = 1) (tools : Tools)
    (hbc : Calculates tools.bc) (type : Text) (size : Nat) (staging : Staging) :
    (∃ staged env,
      processVerity c tools type size (tailFromSecond report.text) staging = some staged ∧
      staged (c.envPath c.imageBasename type) = some env ∧ EncodesRootHash rootHash env) ↔
      leadingZeros (rootHash.digits.take 32) ≤ 8 ∧ leadingZeros (rootHash.digits.drop 32) ≤ 8 := by
  have hne : c.separateHash ≠ 0 := by omega
  have hhigh : IsUuid (halfUuid rootHash '/') ↔ leadingZeros (rootHash.digits.take 32) ≤ 8 :=
    (halfUuid_spec rootHash '/').1
  have hlow : IsUuid (halfUuid rootHash '%') ↔ leadingZeros (rootHash.digits.drop 32) ≤ 8 :=
    (halfUuid_spec rootHash '%').1
  rw [← hhigh, ← hlow, ← encodes_environment_iff report hne size]
  constructor
  · rintro ⟨staged, env, hrun, henv, hencodes⟩
    rw [(processVerity_spec report c tools size hbc.reliable hrun).1, Option.some.injEq] at henv
    rwa [henv]
  · intro hencodes
    obtain ⟨staged, hrun⟩ := Option.isSome_iff_exists.mp
      (processVerity_isSome report c tools size (fun _ => hbc) type staging)
    exact ⟨staged, _, hrun, (processVerity_spec report c tools size hbc.reliable hrun).1, hencodes⟩

/-! ## A root hash that is lost -/

/-- A `bc` that does what the class asks it for. -/
def calculator (program : Text) : Option Text :=
  let expression := program.drop 18
  let number := hexNat ((expression.takeWhile fun c => c ≠ '/' && c ≠ '%').map lowerHex)
  some (bcLine (if expression.contains '/' then number / 2 ^ 128 else number % 2 ^ 128))

theorem calculates_calculator : Calculates calculator := by
  intro rootHash operator hoperator
  have hdigit : ∀ c ∈ hexAlphabet, upperHex c ≠ '/' ∧ upperHex c ≠ '%' :=
    List.forall_iff_forall_mem.mp (by decide)
  have hfree : ∀ c ∈ rootHash.digits.map upperHex, c ≠ '/' ∧ c ≠ '%' := by
    intro c hc
    obtain ⟨d, hd, rfl⟩ := List.mem_map.mp hc
    exact hdigit d (by simpa [isHexDigit] using rootHash.hex d hd)
  have hlower : (rootHash.digits.map upperHex).map lowerHex = rootHash.digits :=
    map_lower_upper (isUuidChar_of_hex rootHash.hex)
  have hdrop : (halfProgram (rootHash.digits.map upperHex) operator ++ ['\n']).drop 18 =
      rootHash.digits.map upperHex ++ operator :: "2^80\n".toList := by
    have hlength : "obase=16;ibase=16;".toList.length = 18 := by decide
    have htail : "2^80".toList ++ ['\n'] = "2^80\n".toList := by decide
    unfold halfProgram
    rw [List.append_assoc, List.append_assoc, List.drop_left' hlength, List.cons_append, htail]
  have hnot : (decide (operator ≠ '/') && decide (operator ≠ '%')) = false := by
    have hall : ∀ o ∈ ['/', '%'], (decide (o ≠ '/') && decide (o ≠ '%')) = false :=
      List.forall_iff_forall_mem.mp (by decide)
    exact hall operator hoperator
  have htake : (rootHash.digits.map upperHex ++ operator :: "2^80\n".toList).takeWhile
      (fun c => c ≠ '/' && c ≠ '%') = rootHash.digits.map upperHex := by
    rw [List.takeWhile_append_of_pos fun c hc => by simpa using hfree c hc,
      List.takeWhile_cons_of_neg (by rw [hnot]; decide), List.append_nil]
  have hcontains : (rootHash.digits.map upperHex ++ operator :: "2^80\n".toList).contains '/' =
      decide (operator = '/') := by
    have hdigits : '/' ∉ rootHash.digits.map upperHex := fun hmem => (hfree _ hmem).1 rfl
    have hslash : ('/' : Char) ∉ "2^80\n".toList := by decide
    rw [Bool.eq_iff_iff, List.contains_iff_mem, List.mem_append, List.mem_cons, decide_eq_true_eq]
    simp only [hdigits, hslash, false_or, or_false]
    exact eq_comm
  simp only [calculator, hdrop, htake, hlower, hcontains, halfNumber, decide_eq_true_eq]

/-- Tools that work. -/
def workingTools : Tools where
  echo := .cut
  pathname := .literal
  bc := calculator
  installSucceeds := true
  copySucceeds := true

/-- A configuration in the given mode. -/
def exampleConfig (separateHash : Nat) : Config where
  stagingVerityDir := "verity".toList
  imageName := "image-machine-2024".toList
  imageBasename := "image".toList
  deployDir := "deploy".toList
  image := "image".toList
  imageType := "ext4".toList
  machine := "machine".toList
  imageNameSuffix := []
  rootGuid := "4f68bce3-e8cd-4db1-96e7-fbcaf984b709".toList
  rhashGuid := "2c7357ed-ebd2-46d9-aec1-23d437ec2bf5".toList
  dataBlockSize := 1024
  hashBlockSize := 4096
  separateHash := separateHash
  plain := by decide

theorem compact_of_literal {value : Text} (h : value.all isLiteral = true) :
    compact value = value := by
  refine List.filter_eq_self.mpr fun c hc => ?_
  have hliteral := List.all_eq_true.mp h c hc
  have hne : c ≠ ' ' ∧ c ≠ '\t' := by
    constructor <;> rintro rfl <;> exact absurd hliteral (by decide)
  simp [hne.1, hne.2]

/-- The names of the two necessary lines of a report. -/
def blockSizeName : Text := "Data block size".toList

def rootHashName : Text := "Root hash".toList

theorem variableName_eq : variableName blockSizeName = Var.dataBlockSize ∧
    variableName rootHashName = Var.rootHash := by decide

/-- A report with the two necessary lines. -/
def Report.short (blockSize : Nat) (rootHash : RootHash) : Report blockSize rootHash where
  header := "VERITY header information".toList
  entries := [(blockSizeName, decimal blockSize), (rootHashName, rootHash.digits)]
  header_line := by decide
  names := by
    have hboth : ∀ name ∈ [blockSizeName, rootHashName],
        isIdentifier (variableName name) = true ∧ variableName name ∉ specialVariables := by decide
    intro entry hentry
    refine hboth entry.1 ?_
    simp only [List.mem_cons, List.not_mem_nil, or_false] at hentry ⊢
    exact hentry.imp (congrArg Prod.fst) (congrArg Prod.fst)
  values := by
    intro entry hentry c hc
    simp only [List.mem_cons, List.not_mem_nil, or_false] at hentry
    rcases hentry with rfl | rfl
    · exact Or.inl (isDigit_spec (isDigit_of_mem_decimal hc)).1
    · exact Or.inl (uuidChar_spec (isUuidChar_of_hex rootHash.hex c hc)).2.1
  blockSize_eq := by
    have hne : Var.rootHash ≠ Var.dataBlockSize := by decide
    simp [toAssignment, variableName_eq.1, variableName_eq.2, hne,
      compact_of_literal (decimal_literal blockSize)]
  rootHash_eq := by
    have hne : Var.rootHash.isPrefixOf Var.dataBlockSize = false := by decide
    have hself : Var.rootHash.isPrefixOf Var.rootHash = true := by decide
    have hliteral : rootHash.digits.all isLiteral = true := List.all_eq_true.mpr fun c hc =>
      (uuidChar_spec (isUuidChar_of_hex rootHash.hex c hc)).2.1
    simp [toAssignment, variableName_eq.1, variableName_eq.2, hne, hself,
      compact_of_literal hliteral]

/-- The root hash whose only nonzero digit is the last one. -/
def smallRootHash : RootHash where
  digits := List.replicate 63 '0' ++ ['1']
  length_eq := by decide
  hex := List.forall_iff_forall_mem.mp (by decide)

/-- `uuid_encoding_iff` for this root hash. -/
theorem uuid_encoding_small :
    (∃ staged env, processVerity (exampleConfig 1) workingTools "ext4".toList 4096
        (tailFromSecond (Report.short 1024 smallRootHash).text) (fun _ => none) = some staged ∧
      staged ((exampleConfig 1).envPath (exampleConfig 1).imageBasename "ext4".toList) = some env ∧
      EncodesRootHash smallRootHash env) ↔
      leadingZeros (smallRootHash.digits.take 32) ≤ 8 ∧
        leadingZeros (smallRootHash.digits.drop 32) ≤ 8 :=
  uuid_encoding_iff (Report.short 1024 smallRootHash) (exampleConfig 1) rfl workingTools
    calculates_calculator "ext4".toList 4096 fun _ => none

/-- A root hash that starts with nine or more zeros is lost. -/
theorem small_root_hash_lost :
    ¬ ∃ staged env, processVerity (exampleConfig 1) workingTools "ext4".toList 4096
        (tailFromSecond (Report.short 1024 smallRootHash).text) (fun _ => none) = some staged ∧
      staged ((exampleConfig 1).envPath (exampleConfig 1).imageBasename "ext4".toList) = some env ∧
      EncodesRootHash smallRootHash env := by
  rintro ⟨staged, env, hrun, henv, hencodes⟩
  have hspec := processVerity_spec (Report.short 1024 smallRootHash) (exampleConfig 1) workingTools
    4096 calculates_calculator.reliable hrun
  rw [hspec.1, Option.some.injEq] at henv
  rw [← henv, encodes_environment_iff _ (by decide)] at hencodes
  have hzeros := (halfUuid_spec smallRootHash '/').1.mp hencodes.1
  revert hzeros
  decide

end MetaSecurity.Verity
