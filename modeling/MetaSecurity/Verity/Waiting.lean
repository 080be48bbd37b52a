import MetaSecurity.Verity.FailClosed

/-!
# Waiting for the device

The loop that both modes of `dmverity_run` wait in, look by look. `awaited_waiting_iff` says when
the module still waits after a number of sleeps, and `awaited_succ` what the next look decides.
`wait_ends_iff` says for which numbers and which appearances of devices the waiting comes to an end:
a delay of zero never adds up to more than the timeout.
-/

namespace MetaSecurity.Verity

open Library Shell

/-! ## The looks -/

section

variable (boot : Boot) (vars : Variables)

/-- The device that the module looks for after `k` sleeps. -/
def deviceAt : Nat → Text
  | 0 => firstDevice boot vars
  | k + 1 => nextDevice boot vars k

/-- The device is there when the module looks for it after `k` sleeps. -/
def present (k : Nat) : Bool :=
  boot.devices.isBlock k (deviceAt boot vars k)

/-- The test whether the time is over after `k` sleeps. -/
def overdue (k : Nat) : Option Bool :=
  boot.patience.exceeded k (valueOr vars Var.bootparamRootdelay "1".toList)
    (valueOr vars Var.bootparamRoottimeout "5".toList)

/-- After `k` sleeps the module sleeps once more. -/
def Sleeps (k : Nat) : Prop :=
  present boot vars k = false ∧ overdue boot vars k = some false

end

section

variable {boot : Boot} {vars : Variables}

/-- The loop from its `k`-th round on. -/
theorem awaited_add {k : Nat} (h : ∀ j < k, Sleeps boot vars j) (fuel : Nat) :
    awaited boot vars (k + fuel) =
      awaitDevice boot (valueOr vars Var.bootparamRootdelay "1".toList)
        (valueOr vars Var.bootparamRoottimeout "5".toList) (nextDevice boot vars) fuel k
        (deviceAt boot vars k) := by
  induction k generalizing fuel with
  | zero =>
      rw [Nat.zero_add]
      rfl
  | succ k ih =>
      have hk := h k (Nat.lt_succ_self k)
      have hround := ih (fun j hj => h j (Nat.lt_succ_of_lt hj)) (fuel + 1)
      have hpresent : boot.devices.isBlock k (deviceAt boot vars k) = false := hk.1
      have hoverdue : boot.patience.exceeded k (valueOr vars Var.bootparamRootdelay "1".toList)
          (valueOr vars Var.bootparamRoottimeout "5".toList) = some false := hk.2
      rw [show k + 1 + fuel = k + (fuel + 1) by omega, hround, awaitDevice, hpresent,
        if_neg Bool.false_ne_true, hoverdue]
      rfl

/-- What the look after `k` sleeps decides. -/
theorem awaited_succ {k : Nat} (h : ∀ j < k, Sleeps boot vars j) :
    awaited boot vars (k + 1) =
      if present boot vars k then .found (deviceAt boot vars k)
      else
        match overdue boot vars k with
        | some false => .waiting
        | _ => .gaveUp := by
  rw [awaited_add h 1, awaitDevice]
  rfl

/-- The module still waits after `k` looks exactly when it slept after each of them. -/
theorem awaited_waiting_iff {k : Nat} :
    awaited boot vars k = .waiting ↔ ∀ j < k, Sleeps boot vars j := by
  constructor
  · intro hwaiting j hj
    induction j using Nat.strongRecOn with
    | ind j ih =>
      have hearlier : ∀ i < j, Sleeps boot vars i := fun i hi => ih i hi (by omega)
      have hround := awaited_add hearlier (k - j - 1 + 1)
      rw [show j + (k - j - 1 + 1) = k by omega, hwaiting, awaitDevice] at hround
      split at hround
      · cases hround
      · next hblock =>
        split at hround
        · next hfalse => exact ⟨by simpa [present] using hblock, hfalse⟩
        · cases hround
  · intro h
    have hround := awaited_add h 0
    rw [Nat.add_zero] at hround
    rw [hround, awaitDevice]

/-- A device that the loop finds is there at the look that finds it. -/
theorem awaitDevice_found_at {delay timeout : Text} {next : Nat → Text} {fuel tick : Nat}
    {device data : Text}
    (h : awaitDevice boot delay timeout next fuel tick device = .found data) :
    boot.devices.isBlock tick device = true ∧ data = device ∨
      ∃ t, boot.devices.isBlock (t + 1) (next t) = true ∧ data = next t := by
  induction fuel generalizing tick device with
  | zero => cases h
  | succ fuel ih =>
      unfold awaitDevice at h
      split at h
      · next hblock =>
        cases h
        exact .inl ⟨hblock, rfl⟩
      · split at h
        · rcases ih h with ⟨hblock, hdata⟩ | hlater
          · exact .inr ⟨tick, hblock, hdata⟩
          · exact .inr hlater
        · cases h

theorem exists_of_awaited_found {fuel : Nat} {data : Text}
    (h : awaited boot vars fuel = .found data) :
    ∃ k, present boot vars k = true ∧ data = deviceAt boot vars k := by
  rcases awaitDevice_found_at h with ⟨hblock, hdata⟩ | ⟨t, hblock, hdata⟩
  · exact ⟨0, hblock, hdata⟩
  · exact ⟨t + 1, hblock, hdata⟩

end

/-! ## The numbers -/

/-- Smaller numbers of sleeps fit, too. -/
theorem Fits.mono {j k delay timeout : Nat} (h : Fits k delay timeout) (hjk : j ≤ k) :
    Fits j delay timeout :=
  ⟨by have := h.1; omega, h.2.1, h.2.2.1,
    Nat.lt_of_le_of_lt (Nat.mul_le_mul_right delay hjk) h.2.2.2⟩

/-- The first multiple of the delay beyond the timeout. -/
theorem lt_next_multiple {delay : Nat} (h : 0 < delay) (timeout : Nat) :
    timeout < (timeout / delay + 1) * delay := by
  rw [Nat.mul_comm]
  exact Nat.lt_mul_div_succ timeout h

/-- No earlier multiple is beyond it. -/
theorem next_multiple_le {delay timeout k : Nat} (h : timeout < k * delay) :
    0 < delay ∧ timeout / delay + 1 ≤ k := by
  have hdelay : 0 < delay := by
    rcases Nat.eq_zero_or_pos delay with rfl | hpos
    · omega
    · exact hpos
  exact ⟨hdelay, (Nat.div_lt_iff_lt_mul hdelay).mpr h⟩

/-- The loop's test in a shell that has the given outcomes for integers that do not fit. -/
def Patience.beyond (outcome : Nat → Option Bool) : Patience where
  exceeded c delay timeout :=
    match integerOperand delay, integerOperand timeout with
    | some delay, some timeout =>
        if Fits c delay.toNat timeout.toNat then some (decide (timeout.toNat < c * delay.toNat))
        else outcome c
    | _, _ => none
  decimals c delay timeout hfits := by
    simp only [integerOperand_decimal, Int.toNat_natCast, if_pos hfits]

theorem Patience.beyond_exceeded (outcome : Nat → Option Bool) (c delay timeout : Nat) :
    (Patience.beyond outcome).exceeded c (decimal delay) (decimal timeout) =
      if Fits c delay timeout then some (decide (timeout < c * delay)) else outcome c := by
  simp only [Patience.beyond, integerOperand_decimal, Int.toNat_natCast]

/-! ## The end of the waiting -/

/-- The waiting comes to an end: after some number of sleeps the module reaches its `veritysetup`
call, or it gives up and the sleeps together are longer than the timeout. -/
def WaitEnds (boot : Boot) (env : Text) (vars : Variables) (mappings : List Mapping)
    (delay timeout : Nat) : Prop :=
  ∃ sleeps, (dmverityRun boot sleeps env vars mappings).ended = .waiting ∧
    ((dmverityRun boot (sleeps + 1) env vars mappings).calls ≠ [] ∨
      dmverityRun boot (sleeps + 1) env vars mappings = endedEarly mappings .stopped ∧
        timeout < sleeps * delay)

/-- The module ends the waiting after this many sleeps, with the device or with the time over. -/
def EndsAfter (boot : Boot) (vars : Variables) (delay timeout sleeps : Nat) : Prop :=
  (∀ j < sleeps, Sleeps boot vars j) ∧
    (present boot vars sleeps = true ∨
      (present boot vars sleeps = false ∧ overdue boot vars sleeps ≠ some false) ∧
        timeout < sleeps * delay)

/-- The numbers fit, or the deadline has passed. -/
def Timely (delay timeout k : Nat) : Prop :=
  Fits k delay timeout ∨ timeout < k * delay

section

variable {boot : Boot} {env : Text} {vars set : Variables} {mappings : List Mapping}

/-- A run that has sourced its file goes on with what it waited for. -/
theorem dmverityRun_sourced (hsource : boot.sourcing.source env (beforeSourcing vars) = some set)
    (fuel : Nat) :
    dmverityRun boot fuel env vars mappings = afterSourcing boot fuel set mappings := by
  rw [dmverityRun, hsource]

theorem setupAndMount_calls (boot : Boot) (mappings : List Mapping) (options : List Text)
    (data hash rootHash target : Text) :
    (setupAndMount boot mappings options data hash rootHash target).ended ≠ .waiting ∧
      (setupAndMount boot mappings options data hash rootHash target).calls ≠ [] := by
  simp only [setupAndMount]
  split <;> simp

/-- A run waits while the module waits for the device. -/
theorem ended_waiting_iff (hsource : boot.sourcing.source env (beforeSourcing vars) = some set)
    (fuel : Nat) :
    (dmverityRun boot fuel env vars mappings).ended = .waiting ↔
      ∀ j < fuel, Sleeps boot set j := by
  rw [dmverityRun_sourced hsource, ← awaited_waiting_iff, afterSourcing]
  cases hawaited : awaited boot set fuel with
  | waiting => simp [endedEarly]
  | gaveUp => simp [endedEarly]
  | found data => simp [(setupAndMount_calls _ _ _ data _ _ _).1]

/-- The look that ends the waiting. -/
theorem last_look (hsource : boot.sourcing.source env (beforeSourcing vars) = some set)
    {sleeps : Nat} (h : ∀ j < sleeps, Sleeps boot set j) :
    ((dmverityRun boot (sleeps + 1) env vars mappings).calls ≠ [] ↔
        present boot set sleeps = true) ∧
      (dmverityRun boot (sleeps + 1) env vars mappings = endedEarly mappings .stopped ↔
        present boot set sleeps = false ∧ overdue boot set sleeps ≠ some false) := by
  rw [dmverityRun_sourced hsource, afterSourcing, awaited_succ h]
  cases hpresent : present boot set sleeps with
  | true =>
      have hcalls := (setupAndMount_calls boot mappings (createOptions set)
        (deviceAt boot set sleeps) (hashDevice set (deviceAt boot set sleeps)) (set Var.rootHash)
        (set Var.rootfsDir)).2
      refine ⟨by simpa using hcalls, ?_⟩
      simp only [if_true, Bool.true_eq_false, false_and, iff_false]
      intro heq
      rw [heq] at hcalls
      exact hcalls rfl
  | false =>
      cases hover : overdue boot set sleeps with
      | none => simp [endedEarly]
      | some late => cases late <;> simp [endedEarly]

/-- The waiting ends at the first look after which the module does not sleep. -/
theorem waitEnds_iff (hsource : boot.sourcing.source env (beforeSourcing vars) = some set)
    (delay timeout : Nat) :
    WaitEnds boot env vars mappings delay timeout ↔
      ∃ sleeps, EndsAfter boot set delay timeout sleeps := by
  refine exists_congr fun sleeps => ?_
  rw [ended_waiting_iff hsource]
  refine and_congr_right fun hsleeps => ?_
  rw [(last_look hsource hsleeps).1, (last_look hsource hsleeps).2]

end

/-! ## Shells -/

/-- The same machine with another shell arithmetic. -/
def Boot.counting (boot : Boot) (patience : Patience) : Boot :=
  { boot with patience := patience }

section

variable {boot : Boot} {env : Text} {vars set : Variables} {mappings : List Mapping}
  {delay timeout : Nat}

/-- The arithmetic does not matter for the device. -/
@[simp] theorem present_counting (patience : Patience) (k : Nat) :
    present (boot.counting patience) set k = present boot set k := by
  cases k <;> rfl

variable (hdelay : valueOr set Var.bootparamRootdelay "1".toList = decimal delay)
  (htimeout : valueOr set Var.bootparamRoottimeout "5".toList = decimal timeout)

include hdelay htimeout

theorem overdue_counting (patience : Patience) (k : Nat) :
    overdue (boot.counting patience) set k =
      patience.exceeded k (decimal delay) (decimal timeout) := by
  rw [← hdelay, ← htimeout]
  rfl

/-- When the numbers fit the module gives up only after the deadline. -/
theorem overdue_of_fits {k : Nat} (h : Fits k delay timeout) :
    overdue boot set k = some (decide (timeout < k * delay)) := by
  rw [overdue, hdelay, htimeout, boot.patience.decimals k delay timeout h]

/-- A look after which the module does not sleep ends the waiting, if no earlier one is untimely. -/
theorem exists_end {last : Nat} (hlast : ¬ Sleeps boot set last)
    (htimely : present boot set last = false → timeout < last * delay)
    (h : ∀ j < last, Timely delay timeout j) :
    ∃ sleeps, EndsAfter boot set delay timeout sleeps := by
  classical
  have hexists : ∃ k, ¬ Sleeps boot set k := ⟨last, hlast⟩
  refine ⟨Nat.find hexists, fun j hj => not_not.mp (Nat.find_min hexists hj), ?_⟩
  have hend := Nat.find_spec hexists
  have hle : Nat.find hexists ≤ last := Nat.find_min' hexists hlast
  generalize Nat.find hexists = sleeps at hend hle
  cases hpresent : present boot set sleeps with
  | true => exact .inl rfl
  | false =>
      have hover : overdue boot set sleeps ≠ some false := fun hfalse => hend ⟨hpresent, hfalse⟩
      refine .inr ⟨⟨rfl, hover⟩, ?_⟩
      rcases Nat.lt_or_eq_of_le hle with hlt | rfl
      · rcases h sleeps hlt with hfits | hover'
        · rw [overdue_of_fits hdelay htimeout hfits] at hover
          simpa using hover
        · exact hover'
      · exact htimely hpresent

/-- Up to a look that the module reaches although its shell gives up on numbers that do not fit, all
numbers fit. -/
theorem fits_of_sleeps {j : Nat} (h : Sleeps (boot.counting (.beyond fun _ => none)) set j) :
    Fits j delay timeout := by
  have hover := h.2
  rw [overdue_counting hdelay htimeout, Patience.beyond_exceeded] at hover
  by_contra hfits
  rw [if_neg hfits] at hover
  cases hover

/-- A shell that goes on with numbers that do not fit gives up on numbers that do. -/
theorem fits_of_overdue {k : Nat}
    (h : overdue (boot.counting (.beyond fun _ => some false)) set k ≠ some false) :
    Fits k delay timeout ∧ timeout < k * delay := by
  rw [overdue_counting hdelay htimeout, Patience.beyond_exceeded] at h
  split at h
  · next hfits => exact ⟨hfits, by simpa using h⟩
  · exact absurd rfl h

/-- The waiting comes to an end in every shell exactly when the device is there at some look, before
which the module could not give up too early, or the sleeps add up to more than the timeout while
the numbers fit. -/
theorem wait_ends_iff (hsource : boot.sourcing.source env (beforeSourcing vars) = some set) :
    (∀ patience, WaitEnds (boot.counting patience) env vars mappings delay timeout) ↔
      (∃ k, present boot set k = true ∧ ∀ j < k, Timely delay timeout j) ∨
        0 < delay ∧ Fits (timeout / delay + 1) delay timeout := by
  have hends : ∀ patience, WaitEnds (boot.counting patience) env vars mappings delay timeout ↔
      ∃ sleeps, EndsAfter (boot.counting patience) set delay timeout sleeps := by
    intro patience
    have hsame : (boot.counting patience).sourcing.source env (beforeSourcing vars) = some set :=
      hsource
    exact waitEnds_iff hsame delay timeout
  simp only [hends]
  constructor
  · intro h
    -- Two shells tell: in one `[` never finds a long number greater, in the other it fails on it.
    obtain ⟨first, -, hfirst⟩ := h (.beyond fun _ => some false)
    obtain ⟨second, hsleeps, hsecond⟩ := h (.beyond fun _ => none)
    simp only [present_counting] at hfirst hsecond
    have hfits : ∀ j < second, Fits j delay timeout := fun j hj =>
      fits_of_sleeps hdelay htimeout (hsleeps j hj)
    rcases hfirst with hpresent | ⟨⟨-, hover⟩, -⟩
    · rcases hsecond with hpresent' | ⟨-, hlate⟩
      · exact .inl ⟨second, hpresent', fun j hj => .inl (hfits j hj)⟩
      · -- The second shell gave up after the deadline, which later looks keep.
        refine .inl ⟨first, hpresent, fun j _ => ?_⟩
        rcases Nat.lt_or_ge j second with hj | hj
        · exact .inl (hfits j hj)
        · exact .inr (Nat.lt_of_lt_of_le hlate (Nat.mul_le_mul_right delay hj))
    · obtain ⟨hfit, hlate⟩ := fits_of_overdue hdelay htimeout hover
      obtain ⟨hpos, hle⟩ := next_multiple_le hlate
      exact .inr ⟨hpos, hfit.mono hle⟩
  · rintro (⟨k, hpresent, htimely⟩ | ⟨hpos, hfits⟩) patience
    · have hlast : ¬ Sleeps (boot.counting patience) set k := by simp [Sleeps, hpresent]
      exact exists_end hdelay htimeout hlast (by simp [hpresent]) htimely
    · -- The first multiple beyond the timeout is the last look.
      have hlate := lt_next_multiple hpos timeout
      have hover : overdue (boot.counting patience) set (timeout / delay + 1) = some true := by
        rw [overdue_of_fits hdelay htimeout hfits, decide_eq_true hlate]
      have hlast : ¬ Sleeps (boot.counting patience) set (timeout / delay + 1) := by
        simp [Sleeps, hover]
      exact exists_end hdelay htimeout hlast (fun _ => hlate) fun j hj => .inl (hfits.mono hj.le)

end

/-! ## A delay of zero -/

/-- A machine without block devices. -/
def Devices.absent : Devices where
  isBlock _ _ := false
  realpath _ _ := []
  path := by simp

/-- Sourcing an empty file changes nothing. -/
theorem sourcing_nil (sourcing : Sourcing) (vars : Variables) :
    sourcing.source [] vars = some vars :=
  sourcing.assignments [] vars nofun

/-- A boot on such a machine. -/
def absentBoot : Boot :=
  ⟨.linewise, .literal, .absent, .standard, .refusing, .lenient⟩

/-- The boot parameters `rootdelay` and `roottimeout`. -/
def waitParameters (delay timeout : Nat) : Variables :=
  assignAll (fun _ => []) [(Var.bootparamRootdelay, decimal delay),
    (Var.bootparamRoottimeout, decimal timeout)]

/-- `wait_ends_iff` for a delay of one second. -/
theorem wait_ends_one_second :
    (∀ patience, WaitEnds (absentBoot.counting patience) [] (waitParameters 1 5) [] 1 5) ↔
      (∃ k, present absentBoot (beforeSourcing (waitParameters 1 5)) k = true ∧
        ∀ j < k, Timely 1 5 j) ∨ 0 < 1 ∧ Fits (5 / 1 + 1) 1 5 :=
  wait_ends_iff (by decide) (by decide) (sourcing_nil _ _)

/-- With a delay of zero the module waits for ever for a device that never appears. -/
theorem zero_delay_waits :
    (∀ fuel, (dmverityRun absentBoot fuel [] (waitParameters 0 5) []).ended = .waiting) ∧
      ¬ WaitEnds absentBoot [] (waitParameters 0 5) [] 0 5 := by
  have hsource : absentBoot.sourcing.source [] (beforeSourcing (waitParameters 0 5)) =
      some (beforeSourcing (waitParameters 0 5)) := sourcing_nil _ _
  have habsent : ∀ k, present absentBoot (beforeSourcing (waitParameters 0 5)) k = false :=
    fun _ => rfl
  have hdelay : valueOr (beforeSourcing (waitParameters 0 5)) Var.bootparamRootdelay "1".toList =
      decimal 0 := by decide
  have htimeout : valueOr (beforeSourcing (waitParameters 0 5)) Var.bootparamRoottimeout
      "5".toList = decimal 5 := by decide
  constructor
  · intro fuel
    rw [ended_waiting_iff hsource]
    refine fun j _ => ⟨habsent j, ?_⟩
    rw [overdue, hdelay, htimeout]
    simp [absentBoot, Patience.standard, integerOperand_decimal]
  · rw [waitEnds_iff hsource]
    rintro ⟨sleeps, -, hpresent | ⟨-, hlate⟩⟩
    · rw [habsent] at hpresent
      cases hpresent
    · omega

end MetaSecurity.Verity
