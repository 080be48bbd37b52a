import MetaSecurity.Verity.Encoding

/-!
# The status of `verity_setup`

A pipeline has the status of its last command, so `verity_setup` does not notice when `veritysetup`
fails: `process_verity` turns whatever was printed into an environment file. In appended mode it
always succeeds; in separate mode it fails if `bc` does not accept the programs made from the root
hash that was printed. `success_means_usable_iff` says when success can be relied on.
-/

namespace MetaSecurity.Verity

open Library Shell

/-- The environment file has the data block size and the root hash, which is not empty, and in
separate mode the UUIDs made from its halves. -/
structure Usable (c : Config) (blockSize : Nat) (rootHash : RootHash) (env : Text) : Prop where
  blockSize_eq : assignedValue Var.dataBlockSize env = some (decimal blockSize)
  rootHash_eq : assignedValue Var.rootHash env = some rootHash.digits
  nonempty : rootHash.digits ≠ []
  uuids : c.separateHash = 1 →
    assignedValue Var.rootUuid env = some (halfUuid rootHash '/') ∧
      assignedValue Var.rhashUuid env = some (halfUuid rootHash '%')

/-- `veritysetup format` succeeds with its report, or it fails after any part of it. -/
inductive Behaves {blockSize : Nat} {rootHash : RootHash} (report : Report blockSize rootHash) :
    Format → Prop where
  | success : Behaves report ⟨report.text, true⟩
  | failure (output : Text) : output <+: report.text → Behaves report ⟨output, false⟩

/-- `bc` fails on one of the two programs made from what was printed. -/
def BcRefuses (c : Config) (tools : Tools) (size : Nat) (format : Format) : Prop :=
  let rootHash := rootHashOf (commonEnvironment c tools size (tailFromSecond format.output))
  half tools rootHash '/' = none ∨ half tools rootHash '%' = none

/-- `verity_setup` ends with a status that is not zero: `install` or `cp` fails, there is no size to
align, or in separate mode `bc` fails. -/
def StopsEarly (c : Config) (tools : Tools) (size : Option Nat) (format : Format) : Prop :=
  tools.installSucceeds = false ∨ tools.copySucceeds = false ∨
    ∀ aligned, alignedSize size c.align = some aligned →
      c.separateHash ≠ 0 ∧ BcRefuses c tools aligned format

/-- There is no size to align exactly when `stat` fails, the image is empty, or no block size is
positive. -/
theorem alignedSize_eq_none_iff (size : Option Nat) (align : Nat) :
    alignedSize size align = none ↔ size = none ∨ size = some 0 ∨ align = 0 := by
  cases size with
  | none => simp [alignedSize]
  | some n =>
      have hzero : (n + align - 1) / align * align = 0 ↔ align = 0 ∨ n = 0 := by
        rcases Nat.eq_zero_or_pos align with rfl | hpos
        · simp
        · have hdiv : (n + align - 1) / align = 0 ↔ n + align - 1 < align := by
            rw [Nat.div_eq_zero_iff]
            omega
          rw [Nat.mul_eq_zero, hdiv]
          omega
      simp only [alignedSize, Option.bind_some, hzero]
      split
      · next h =>
        simp only [true_iff, Option.some.injEq]
        omega
      · next h =>
        refine iff_of_false (by simp) ?_
        rintro (hsome | hsome | hzero)
        · cases hsome
        · cases hsome
          exact h (Or.inr (Or.inr rfl))
        · exact h (Or.inl hzero)

section

variable {c : Config} {tools : Tools} {type : Text} {size : Option Nat} {format : Format}
  {staging : Staging}

/-- What a successful `verity_setup` did. -/
theorem veritySetup_eq_some {build : Build}
    (h : veritySetup c tools type size format staging = some build) :
    tools.installSucceeds = true ∧ tools.copySucceeds = true ∧
      ∃ aligned, alignedSize size c.align = some aligned ∧
        build.formatCall = expand tools.pathname (setupArgs c type aligned) ∧
        ∃ before, processVerity c tools type aligned (tailFromSecond format.output) before =
          some build.staging := by
  unfold veritySetup at h
  split at h
  · cases h
  next hinstall =>
  obtain ⟨aligned, haligned, h⟩ := Option.bind_eq_some_iff.mp h
  split at h
  · cases h
  next hcopy =>
  obtain ⟨staged, hstaged, rfl⟩ := Option.map_eq_some_iff.mp h
  rw [Bool.not_eq_true, Bool.not_eq_false'] at hinstall hcopy
  exact ⟨hinstall, hcopy, aligned, haligned, by dsimp only,
    saveArgs c tools type aligned staging, hstaged⟩

/-- When nothing stops it, `verity_setup` succeeds. -/
theorem veritySetup_isSome (type : Text) (staging : Staging)
    (h : ¬ StopsEarly c tools size format) :
    ∃ build, veritySetup c tools type size format staging = some build := by
  unfold StopsEarly at h
  push Not at h
  obtain ⟨hinstall, hcopy, aligned, haligned, hbc⟩ := h
  have hprocess : ∃ staged, processVerity c tools type aligned (tailFromSecond format.output)
      (saveArgs c tools type aligned staging) = some staged := by
    by_cases hmode : c.separateHash = 0
    · exact ⟨_, by rw [processVerity, if_pos hmode]⟩
    · have hhalves := not_or.mp (hbc hmode)
      obtain ⟨high, hhigh⟩ := Option.ne_none_iff_exists'.mp hhalves.1
      obtain ⟨low, hlow⟩ := Option.ne_none_iff_exists'.mp hhalves.2
      refine Option.isSome_iff_exists.mp ?_
      simp only [processVerity, if_neg hmode, hhigh, hlow, Option.bind_eq_bind, Option.bind_some,
        Option.isSome_some]
  obtain ⟨staged, hstaged⟩ := hprocess
  rw [Bool.ne_false_iff] at hinstall hcopy
  refine ⟨⟨expand tools.pathname (setupArgs c type aligned), staged⟩, ?_⟩
  unfold veritySetup
  rw [if_neg (by simp [hinstall]), haligned, Option.bind_some, if_neg (by simp [hcopy]), hstaged,
    Option.map_some]

/-- Whatever `veritysetup` does, success of `verity_setup` means that `veritysetup` succeeded and
that the environment file is usable, exactly when `veritysetup` succeeds or `verity_setup` fails for
another reason. -/
theorem success_means_usable_iff {blockSize : Nat} {rootHash : RootHash}
    (report : Report blockSize rootHash) (hbc : Reliable tools.bc) (hformat : Behaves report format)
    (type : Text) (staging : Staging) :
    (∀ build, veritySetup c tools type size format staging = some build →
      format.succeeded = true ∧
        ∃ env, build.staging (c.envPath c.imageBasename type) = some env ∧
          Usable c blockSize rootHash env) ↔
      format.succeeded = true ∨ StopsEarly c tools size format := by
  constructor
  · intro h
    by_contra hnone
    obtain ⟨hfailed, hstops⟩ := not_or.mp hnone
    obtain ⟨build, hbuild⟩ := veritySetup_isSome type staging hstops
    exact hfailed (h build hbuild).1
  · intro h build hbuild
    obtain ⟨hinstall, hcopy, aligned, haligned, -, before, hprocess⟩ := veritySetup_eq_some hbuild
    have hsucceeded : format.succeeded = true := by
      rcases h with h | h | h | h
      · exact h
      · rw [hinstall] at h
        cases h
      · rw [hcopy] at h
        cases h
      · -- `process_verity` would have stopped
        obtain ⟨hne, hrefuses⟩ := h aligned haligned
        simp only [processVerity, if_neg hne, Option.bind_eq_bind, Option.bind_eq_some_iff]
          at hprocess
        obtain ⟨high, hhigh, low, hlow, -⟩ := hprocess
        rcases hrefuses with hnone | hnone
        · rw [hhigh] at hnone
          cases hnone
        · rw [hlow] at hnone
          cases hnone
    refine ⟨hsucceeded, ?_⟩
    cases hformat with
    | failure output hstart => cases hsucceeded
    | success =>
        -- the file is what `process_verity` wrote of the report
        have hplain := report.plain_environment c aligned
        refine ⟨_, (processVerity_spec report c tools aligned hbc hprocess).1, ?_, ?_, ?_, ?_⟩
        · rw [assignedValue_file hplain, lastValue_blockSize]
        · rw [assignedValue_file hplain, lastValue_rootHash]
        · intro hnil
          have hlength := rootHash.length_eq
          rw [hnil] at hlength
          cases hlength
        · intro hseparate
          rw [assignedValue_file hplain, assignedValue_file hplain]
          exact lastValue_uuids report c aligned (by omega)

end

/-- `success_means_usable_iff` for a report that is printed completely. -/
theorem success_means_usable_example :
    (∀ build, veritySetup (exampleConfig 1) workingTools "ext4".toList (some 5000)
        ⟨(Report.short 1024 smallRootHash).text, true⟩ (fun _ => none) = some build →
      true = true ∧
        ∃ env, build.staging ((exampleConfig 1).envPath (exampleConfig 1).imageBasename
            "ext4".toList) = some env ∧
          Usable (exampleConfig 1) 1024 smallRootHash env) ↔
      true = true ∨ StopsEarly (exampleConfig 1) workingTools (some 5000)
        ⟨(Report.short 1024 smallRootHash).text, true⟩ :=
  success_means_usable_iff (Report.short 1024 smallRootHash) calculates_calculator.reliable .success
    "ext4".toList fun _ => none

/-- A `veritysetup` that fails without printing anything: `verity_setup` succeeds. -/
theorem silent_failure_succeeds :
    ¬ ∀ build, veritySetup (exampleConfig 0) workingTools "ext4".toList (some 5000) ⟨[], false⟩
        (fun _ => none) = some build →
      (⟨[], false⟩ : Format).succeeded = true ∧
        ∃ env, build.staging ((exampleConfig 0).envPath (exampleConfig 0).imageBasename
            "ext4".toList) = some env ∧
          Usable (exampleConfig 0) 1024 smallRootHash env := by
  intro h
  have hstops : ¬ StopsEarly (exampleConfig 0) workingTools (some 5000) ⟨[], false⟩ := by
    rintro (hinstall | hcopy | hbc)
    · cases hinstall
    · cases hcopy
    · exact (hbc 8192 (by decide)).1 rfl
  obtain ⟨build, hbuild⟩ := veritySetup_isSome "ext4".toList (fun _ => none) hstops
  cases (h build hbuild).1

end MetaSecurity.Verity
