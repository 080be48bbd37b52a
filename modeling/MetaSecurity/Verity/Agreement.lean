import MetaSecurity.Library.Rounding
import MetaSecurity.Verity.FailClosed
import MetaSecurity.Verity.Fragment
import MetaSecurity.Verity.Status

/-!
# The build and the boot agree

`verity_setup` calls `veritysetup format`, `dmverity_run` calls `veritysetup create`, and between
them there is only the environment file. `build_boot_agreement` says that both calls use the same
block size, the same root hash and the same place for the hash: behind the data, at the smallest
common multiple of the block sizes that is not below the image size, or on the partition that the
`.wks.in` fragment describes.
-/

namespace MetaSecurity.Verity

open Library Shell

/-! ## Agreement -/

/-- The calls of the build and of the boot use the same block size, the same root hash and the same
place for the hash. In appended mode that is an offset, the smallest common multiple of the block
sizes that is not below the image size; in separate mode the devices are the partitions to which
the staged fragment gives the data file and the hash file. -/
structure Agrees (c : Config) (imageSize : Nat) (rootHash : RootHash) (build : Build)
    (createCall : List Text) : Prop where
  blockSize : optionValues Opt.dataBlockSize build.formatCall = [decimal c.dataBlockSize] ∧
    optionValues Opt.dataBlockSize createCall = [decimal c.dataBlockSize]
  appended : c.separateHash = 0 → ∃ offset device,
    IsLeast {m | imageSize ≤ m ∧ c.dataBlockSize ∣ m ∧ c.hashBlockSize ∣ m} offset ∧
    optionValues Opt.hashOffset build.formatCall = [decimal offset] ∧
    optionValues Opt.hashOffset createCall = [decimal offset] ∧
    operands build.formatCall =
      [format, outputFile c c.imageType ".verity".toList,
        outputFile c c.imageType ".verity".toList] ∧
    operands createCall = [create, rootfs, device, device, rootHash.digits]
  separate : c.separateHash = 1 → ∃ wks data hash,
    optionValues Opt.hashOffset build.formatCall = [] ∧
    optionValues Opt.hashOffset createCall = [] ∧
    operands build.formatCall =
      [format, outputFile c c.imageType ".verity".toList,
        outputFile c c.imageType ".vhash".toList] ∧
    build.staging (c.wksPath c.imageType) = some wks ∧
    uuidsOfFile wks (c.partitionFile ".verity".toList) = [data] ∧
    uuidsOfFile wks (c.partitionFile ".vhash".toList) = [hash] ∧
    operands createCall =
      [create, rootfs, partuuidPath data, partuuidPath hash, rootHash.digits]

/-- The size that `verity_setup` computes. -/
theorem alignedSize_isLeast {c : Config} {n size : Nat}
    (hdata : ∃ a, c.dataBlockSize = 2 ^ a) (hhash : ∃ b, c.hashBlockSize = 2 ^ b)
    (h : alignedSize (some n) c.align = some size) :
    IsLeast {m | n ≤ m ∧ c.dataBlockSize ∣ m ∧ c.hashBlockSize ∣ m} size := by
  obtain ⟨a, ha⟩ := hdata
  obtain ⟨b, hb⟩ := hhash
  have halign : c.align = max (2 ^ a) (2 ^ b) := by
    rw [Config.align, ha, hb]
    split
    · next hle => exact (max_eq_left hle).symm
    · next hle => exact (max_eq_right (Nat.le_of_not_le hle)).symm
  rw [alignedSize, Option.bind_some] at h
  split at h
  · cases h
  · rw [← Option.some.inj h, halign, ha, hb]
    exact isLeast_roundUp_pow (by decide) a b n

/-- The options and operands of the `format` call. -/
theorem formatCall_options (c : Config) (g : PathnameExpansion) (size : Nat) :
    optionValues Opt.dataBlockSize (expand g (setupArgs c c.imageType size)) =
        [decimal c.dataBlockSize] ∧
      optionValues Opt.hashOffset (expand g (setupArgs c c.imageType size)) =
        (if c.separateHash = 1 then [] else [decimal size]) ∧
      operands (expand g (setupArgs c c.imageType size)) =
        [format, output c c.imageType, outputHash c c.imageType] := by
  rw [expand_setupArgs]
  refine call_options _ _ _ _ _ ?_ ?_
  · intro option hoption
    rw [List.mem_singleton.mp hoption]
    exact ⟨isOption_append (by decide) _, rfl, rfl⟩
  · intro word hword
    simp only [List.mem_cons, List.not_mem_nil, or_false] at hword
    rcases hword with rfl | rfl | rfl
    · exact isOperand_of_path (by decide)
    · exact isOperand_of_path (output_path c)
    · exact isOperand_of_path (outputHash_path c)

section

variable {c : Config} {rootHash : RootHash} (report : Report c.dataBlockSize rootHash) {size : Nat}
  {set : Variables} (hset : ∀ name value, lastValue name (report.environment c size) = some value →
    set name = value)

include hset

/-- The mode of the boot is that of the build. -/
theorem isSeparate_sourced : isSeparate set = decide (c.separateHash = 1) :=
  isSeparate_eq (hset _ _ (lastValue_separateHash report c size))

/-- The hash device of the boot. -/
theorem hashDevice_sourced (data : Text) :
    hashDevice set data =
      if c.separateHash = 1 then partuuidPath (halfUuid rootHash '%') else data := by
  unfold hashDevice
  rw [isSeparate_sourced report hset]
  by_cases h : c.separateHash = 1
  · have huuids := lastValue_uuids report c size (by omega)
    rw [if_pos (by simpa using h), if_pos h, hset _ _ huuids.2]
  · rw [if_neg (by simpa using h), if_neg h]

/-- It is one word, and an operand. -/
theorem hashDevice_operand (g : PathnameExpansion) {data : Text} (hpath : IsDevicePath data) :
    expand g (hashDevice set data) = [hashDevice set data] ∧ IsOperand (hashDevice set data) := by
  rw [hashDevice_sourced report hset]
  split
  · have huuid := halfUuid_path rootHash '%'
    exact ⟨expand_callWord _ (partuuidPath_ne_nil _) (callChar_of_path huuid),
      isOperand_of_path huuid⟩
  · exact ⟨expand_plain _ hpath.ne_nil hpath.plain, isOperand_of_device hpath.noHyphen⟩

/-- The options and operands of the `create` call. -/
theorem createCall_options (g : PathnameExpansion) {data : Text} (hpath : IsDevicePath data)
    {call : List Text} (hcall : call = createCall g (createOptions set) data (hashDevice set data)
      (set Var.rootHash)) :
    optionValues Opt.dataBlockSize call = [decimal c.dataBlockSize] ∧
      optionValues Opt.hashOffset call = (if c.separateHash = 1 then [] else [decimal size]) ∧
      operands call = [create, rootfs, data, hashDevice set data, rootHash.digits] := by
  obtain ⟨hhashWord, hhashOperand⟩ := hashDevice_operand report hset g hpath
  have hdataWord : expand g data = [data] := expand_plain _ hpath.ne_nil hpath.plain
  rw [hcall, createCall_eq (hset _ _ (lastValue_separateHash report c size))
    (hset _ _ (lastValue_blockSize report c size)) (hset _ _ (lastValue_dataSize report c size))
    (hset _ _ (lastValue_rootHash report c size)) g hdataWord hhashWord]
  refine call_options _ _ _ _ _ (by simp) fun word hword => ?_
  simp only [List.mem_cons, List.not_mem_nil, or_false] at hword
  rcases hword with rfl | rfl | rfl | rfl | rfl
  · exact isOperand_of_path (by decide)
  · exact isOperand_of_path (by decide)
  · exact isOperand_of_device hpath.noHyphen
  · exact hhashOperand
  · exact isOperand_of_path (rootHash_path rootHash)

/-- The call for a device that can be found agrees with the call of the build. -/
theorem agrees_of_findable {tools : Tools} {build : Build} {n : Nat}
    (hsize : IsLeast {m | n ≤ m ∧ c.dataBlockSize ∣ m ∧ c.hashBlockSize ∣ m} size)
    (hformat : build.formatCall = expand tools.pathname (setupArgs c c.imageType size))
    (hwks : c.separateHash ≠ 0 →
      build.staging (c.wksPath c.imageType) = some (wksFragment c tools rootHash))
    (g : PathnameExpansion) {data : Text} (hdata : Findable set data) {call : List Text}
    (hcall : call = createCall g (createOptions set) data (hashDevice set data)
      (set Var.rootHash)) : Agrees c n rootHash build call := by
  have hformatOptions := formatCall_options c tools.pathname size
  rw [← hformat] at hformatOptions
  have hcreate := createCall_options report hset g hdata.1 hcall
  have hdevice := hashDevice_sourced report hset data
  refine ⟨⟨hformatOptions.1, hcreate.1⟩, fun happended => ?_, fun hseparate => ?_⟩
  · have hne : c.separateHash ≠ 1 := by omega
    rw [if_neg hne] at hdevice hformatOptions hcreate
    refine ⟨size, data, hsize, hformatOptions.2.1, hcreate.2.1, ?_, ?_⟩
    · rw [hformatOptions.2.2, outputHash, if_neg hne, output]
    · rw [hcreate.2.2, hdevice]
  · rw [if_pos hseparate] at hdevice hformatOptions hcreate
    have huuids := lastValue_uuids report c size (by omega)
    have hmode : isSeparate set = true := by
      rw [isSeparate_sourced report hset]
      simpa using hseparate
    -- both partitions are found by the UUIDs that the fragment gives to their files
    obtain ⟨hdataFile, hhashFile⟩ := uuidsOfFile_wksFragment c tools rootHash
    refine ⟨_, _, _, hformatOptions.2.1, hcreate.2.1, ?_, hwks (by omega), hdataFile, hhashFile, ?_⟩
    · rw [hformatOptions.2.2, outputHash, if_pos hseparate, output]
    · rw [hcreate.2.2, hdevice, hdata.2 hmode, hset _ _ huuids.1]

end

/-- Every `veritysetup create` call of a boot with the environment file of a build agrees with the
`veritysetup format` call of that build, and when the awaited device is there, the call is made. -/
theorem build_boot_agreement (c : Config) (hdata : ∃ a, c.dataBlockSize = 2 ^ a)
    (hhash : ∃ b, c.hashBlockSize = 2 ^ b) (himage : c.image = c.imageBasename) (tools : Tools)
    (hbc : Reliable tools.bc) (rootHash : RootHash) (report : Report c.dataBlockSize rootHash)
    (n : Nat) (staging : Staging) (build : Build)
    (hbuild : veritySetup c tools c.imageType (some n) ⟨report.text, true⟩ staging = some build)
    (boot : Boot) (fuel : Nat) (vars : Variables) (mappings : List Mapping) :
    ∃ env set, deployVerityHash c build.staging = some env ∧
      boot.sourcing.source env (beforeSourcing vars) = some set ∧
      (∀ call ∈ (dmverityRun boot fuel env vars mappings).calls,
        Agrees c n rootHash build call) ∧
      (0 < fuel → boot.devices.isBlock 0 (firstDevice boot set) = true →
        ∃ call, (dmverityRun boot fuel env vars mappings).calls = [call]) := by
  obtain ⟨-, -, size, hsize, hformat, before, hprocess⟩ := veritySetup_eq_some hbuild
  obtain ⟨henv, hwks⟩ := processVerity_spec report c tools size hbc hprocess
  -- the boot sources what the build wrote
  generalize hassign : assignAll (beforeSourcing vars) (report.environment c size) = set
  have hsource : boot.sourcing.source (assignmentFile (report.environment c size))
      (beforeSourcing vars) = some set := by
    rw [boot.sourcing.assignments _ _ (report.ordinary_environment c size), hassign]
  have hset : ∀ name value, lastValue name (report.environment c size) = some value →
      set name = value := by
    intro name value hlast
    rw [← hassign, assignAll_eq, hlast, Option.getD_some]
  refine ⟨_, set, ?_, hsource, ?_, ?_⟩
  · rw [deployVerityHash, himage]
    exact henv
  · intro call hmem
    obtain ⟨data, hfound⟩ := found_of_mem_calls hsource hmem
    rw [calls_of_found hsource hfound, List.mem_singleton] at hmem
    exact agrees_of_findable report hset (alignedSize_isLeast hdata hhash hsize) hformat hwks
      boot.pathname (findable_of_awaited hfound) hmem
  · intro hfuel hblock
    have hfound : awaited boot set fuel = .found (firstDevice boot set) := by
      obtain ⟨more, rfl⟩ := Nat.exists_eq_succ_of_ne_zero hfuel.ne'
      rw [awaited, awaitDevice, if_pos hblock]
    exact ⟨_, calls_of_found hsource hfound⟩

/-- `build_boot_agreement` for an image of 5000 bytes in separate mode. -/
theorem build_boot_agreement_example :
    let path := "/dev/sda2".toList
    let boot : Boot := ⟨.linewise, .literal, .only path ⟨by decide, by decide, by decide⟩,
      .standard, .refusing, .lenient⟩
    ∃ build, veritySetup (exampleConfig 1) workingTools (exampleConfig 1).imageType (some 5000)
        ⟨(Report.short 1024 smallRootHash).text, true⟩ (fun _ => none) = some build ∧
      ∃ env set, deployVerityHash (exampleConfig 1) build.staging = some env ∧
        boot.sourcing.source env (beforeSourcing fun _ => []) = some set ∧
        (∀ call ∈ (dmverityRun boot 1 env (fun _ => []) []).calls,
          Agrees (exampleConfig 1) 5000 smallRootHash build call) ∧
        (0 < 1 → boot.devices.isBlock 0 (firstDevice boot set) = true →
          ∃ call, (dmverityRun boot 1 env (fun _ => []) []).calls = [call]) := by
  intro path boot
  have hstops : ¬ StopsEarly (exampleConfig 1) workingTools (some 5000)
      ⟨(Report.short 1024 smallRootHash).text, true⟩ := by
    rintro (hinstall | hcopy | hbc)
    · cases hinstall
    · cases hcopy
    · rcases (hbc 8192 (by decide)).2 with hnone | hnone <;> cases hnone
  obtain ⟨build, hbuild⟩ := veritySetup_isSome (exampleConfig 1).imageType
    (fun _ => none) hstops
  exact ⟨build, hbuild, build_boot_agreement (exampleConfig 1) ⟨10, rfl⟩ ⟨12, rfl⟩ rfl workingTools
    calculates_calculator.reliable smallRootHash (Report.short 1024 smallRootHash) 5000 _ build
    hbuild boot 1 (fun _ => []) []⟩

end MetaSecurity.Verity
