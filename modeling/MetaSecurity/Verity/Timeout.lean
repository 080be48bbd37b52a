import MetaSecurity.Verity.Waiting

/-!
# When the module gives up

The link of the root device appears at some time and stays. The loop for the separate mode tests the
link itself; the other loop resolves it before it sleeps and tests what it resolved afterwards.
`no_false_timeout_iff` says for which times of appearance the module gives up only while the link is
not there.
-/

namespace MetaSecurity.Verity

open Library Shell

/-! ## The link -/

/-- The form of the `root` parameter that both lookups share. -/
def partuuidForm : Text × Text :=
  ("PARTUUID=".toList, "/dev/disk/by-partuuid/".toList)

/-- The module waits for the link: in separate mode the one for `ROOT_UUID`, else the one that the
`root` parameter names with a prefix. -/
def Names (vars : Variables) (form : Text × Text) (x link : Text) : Prop :=
  if isSeparate vars then link = partuuidPath (vars Var.rootUuid)
  else form ∈ rootForms ∧ vars Var.bootparamRoot = form.1 ++ x ∧ link = form.2 ++ x

/-- The link is there at the times that the schedule says, and then leads to the device; `realpath`
prints nothing for a link that does not exist. -/
def Follows (boot : Boot) (vars : Variables) (link device : Text) (there : Nat → Bool) : Prop :=
  if isSeparate vars then ∀ k, boot.devices.isBlock k link = there k
  else ∀ k, boot.devices.realpath k [link] = (if there k then device ++ ['\n'] else []) ∧
    (there k = true → boot.devices.isBlock k device = true)

/-- The module gives up after `k` sleeps. -/
def GivesUpAt (boot : Boot) (env : Text) (vars : Variables) (mappings : List Mapping) (k : Nat) :
    Prop :=
  (dmverityRun boot k env vars mappings).ended = .waiting ∧
    dmverityRun boot (k + 1) env vars mappings = endedEarly mappings .stopped

/-- The numbers allow the module to come to the look after `k` sleeps and to give up there. -/
def MayGiveUp (delay timeout k : Nat) : Prop :=
  (∀ j < k, ¬ (Fits j delay timeout ∧ timeout < j * delay)) ∧
    (Fits k delay timeout → timeout < k * delay)

/-- The link was there when the device for the look after `k` sleeps was resolved: one sleep
earlier, or at once for the first look, which knows only one form. -/
def SeenBefore (form : Text × Text) (there : Nat → Bool) : Nat → Prop
  | 0 => form = partuuidForm ∧ there 0 = true
  | k + 1 => there k = true

/-! ## The forms of the `root` parameter -/

section

variable {form : Text × Text} {x : Text}

/-- A parameter has only one form. -/
theorem find_form (h : form ∈ rootForms) :
    (rootForms.find? fun other => other.1.isPrefixOf (form.1 ++ x)) = some form := by
  simp only [rootForms, List.mem_cons, List.not_mem_nil, or_false] at h
  rcases h with rfl | rfl | rfl | rfl | rfl | rfl <;> rfl

theorem withoutPrefix_append (word x : Text) : withoutPrefix word (word ++ x) = x := by
  simp [withoutPrefix]

/-- The lookup in the loop goes to the directory of the form. -/
theorem rootDevice_form (h : form ∈ rootForms) (boot : Boot) (k : Nat) :
    rootDevice boot (form.1 ++ x) k =
      substitution (boot.devices.realpath k (expand boot.pathname (form.2 ++ x))) := by
  simp only [rootDevice, find_form h, resolved, withoutPrefix_append]

/-- The other forms have other directories. -/
theorem ne_partuuid (h : form ∈ rootForms) (hform : form ≠ partuuidForm) (y : Text) :
    form.2 ++ x ≠ "/dev/disk/by-partuuid/".toList ++ y := by
  simp only [rootForms, List.mem_cons, List.not_mem_nil, or_false] at h
  rcases h with rfl | rfl | rfl | rfl | rfl | rfl
  · simp
  · simp
  · simp
  · exact absurd rfl hform
  · simp
  · simp

theorem form_path_ne_nil (h : form ∈ rootForms) : form.2 ++ x ≠ [] := by
  simp only [rootForms, List.mem_cons, List.not_mem_nil, or_false] at h
  rcases h with rfl | rfl | rfl | rfl | rfl | rfl <;> simp

end

/-! ## A link that was resolved in time -/

/-- A link that has appeared stays. -/
theorem there_mono {there : Nat → Bool} (hstays : ∀ k, there k = true → there (k + 1) = true)
    {j k : Nat} (hjk : j ≤ k) (h : there j = true) : there k = true := by
  induction hjk with
  | refl => exact h
  | step _ ih => exact hstays _ ih

/-- No empty path is a block device. -/
theorem isBlock_nil (devices : Devices) (k : Nat) : devices.isBlock k [] = false := by
  by_contra h
  exact (devices.path k [] (Bool.not_eq_false _ ▸ h)).ne_nil rfl

/-- The path of a device is what `realpath` prints without its newline. -/
theorem substitution_device {device : Text} (h : IsDevicePath device) :
    substitution (device ++ ['\n']) = device := by
  have hplain := h.plain
  simp only [isPlainWord, Bool.and_eq_true, List.all_eq_true, Bool.not_eq_eq_eq_not,
    Bool.not_true] at hplain
  exact substitution_line fun hmem => absurd (hplain.1 _ hmem) (by decide)

section

variable {boot : Boot} {env : Text} {vars set : Variables} {mappings : List Mapping}
  {form : Text × Text} {x link device : Text} {there : Nat → Bool} {delay timeout : Nat}

/-- What is resolved for a link that is one word. -/
theorem resolved_link (hplain : isPlainWord link = true) (hne : link ≠ [])
    (hdevice : IsDevicePath device) {k : Nat}
    (hresolves : boot.devices.realpath k [link] = if there k then device ++ ['\n'] else []) :
    substitution (boot.devices.realpath k (expand boot.pathname link)) =
      if there k then device else [] := by
  rw [expand_plain boot.pathname hne hplain, hresolves]
  cases there k with
  | true => exact substitution_device hdevice
  | false => rfl

/-- In appended mode a link that is there, and was there when it was resolved, is found. -/
theorem present_of_seen (hmode : isSeparate set = false) (hnames : Names set form x link)
    (hfollows : Follows boot set link device there) (hdevice : IsDevicePath device)
    (hplain : isPlainWord link = true) {k : Nat} (hseen : SeenBefore form there k)
    (hthere : there k = true) : present boot set k = true := by
  simp only [Names, Follows, hmode, Bool.false_eq_true, if_false] at hnames hfollows
  obtain ⟨hform, hroot, rfl⟩ := hnames
  have hresolved := fun k => resolved_link hplain (form_path_ne_nil hform) hdevice (hfollows k).1
  have hat : deviceAt boot set k = device := by
    cases k with
    | zero =>
        obtain ⟨rfl, hzero⟩ := hseen
        -- The lookup before the loop knows only `PARTUUID=`.
        have hlookup := hresolved 0
        rw [hzero, if_pos rfl] at hlookup
        simp only [deviceAt, firstDevice, hmode, Bool.false_eq_true, if_false, hroot, resolved]
        rw [← hlookup]
        have hsame : withoutPrefix "PARTUUID=".toList (partuuidForm.1 ++ x) = x :=
          withoutPrefix_append partuuidForm.1 x
        rw [hsame]
        rfl
    | succ k =>
        have hlookup := hresolved k
        rw [show there k = true from hseen, if_pos rfl] at hlookup
        simp only [deviceAt, nextDevice, hmode, Bool.false_eq_true, if_false, hroot]
        rw [rootDevice_form hform, hlookup]
  rw [present, hat]
  exact (hfollows k).2 hthere

/-- A module that gives up had numbers that allowed it, and did not find the device. -/
theorem mayGiveUp_of_givesUpAt
    (hsource : boot.sourcing.source env (beforeSourcing vars) = some set)
    (hdelay : valueOr set Var.bootparamRootdelay "1".toList = decimal delay)
    (htimeout : valueOr set Var.bootparamRoottimeout "5".toList = decimal timeout) {k : Nat}
    (h : GivesUpAt boot env vars mappings k) :
    MayGiveUp delay timeout k ∧ present boot set k = false := by
  obtain ⟨hwaiting, hstopped⟩ := h
  rw [ended_waiting_iff hsource] at hwaiting
  obtain ⟨hpresent, hover⟩ := (last_look hsource hwaiting).2.mp hstopped
  refine ⟨⟨fun j hj hlate => ?_, fun hfits => ?_⟩, hpresent⟩
  · have hsleeps := (hwaiting j hj).2
    rw [overdue_of_fits hdelay htimeout hlate.1] at hsleeps
    simp only [Option.some.injEq, decide_eq_false_iff_not] at hsleeps
    exact hsleeps hlate.2
  · rw [overdue_of_fits hdelay htimeout hfits] at hover
    simpa using hover

end

/-! ## A link that was resolved too early -/

/-- Devices on which the link appears as scheduled, and leads to the device. -/
def Devices.late (link device : Text) (h : IsDevicePath device) (there : Nat → Bool) : Devices where
  isBlock k path := path = device && there k
  realpath k args := if args = [link] then (if there k then device ++ ['\n'] else []) else []
  path k path hblock := by
    simp only [Bool.and_eq_true, decide_eq_true_eq] at hblock
    exact hblock.1 ▸ h

/-- A machine with such devices, whose shell gives up after `k` sleeps when the numbers do not
fit. -/
def lateBoot (sourcing : Sourcing) (link device : Text) (h : IsDevicePath device)
    (there : Nat → Bool) (k : Nat) : Boot :=
  ⟨sourcing, .matching [], .late link device h there, .beyond fun c => some (decide (k ≤ c)),
    .refusing, .lenient⟩

/-- Only a plain word expands to itself where patterns match something else. -/
theorem plain_of_expand_matching {t link : Text} (hne : link ≠ [])
    (h : expand (.matching []) t = [link]) : fields isIfs t = [link] ∧ isPlainWord link = true := by
  rw [expand_matching] at h
  obtain ⟨word, hfields, hword⟩ := List.map_eq_singleton_iff.mp h
  by_cases hpattern : isPattern word = true
  · rw [if_pos hpattern] at hword
    exact absurd hword.symm hne
  · rw [if_neg hpattern] at hword
    subst hword
    refine ⟨hfields, ?_⟩
    have hmem : word ∈ fields isIfs t := hfields ▸ List.mem_singleton_self word
    simp only [isPlainWord, Bool.and_eq_true, List.all_eq_true]
    exact ⟨fun c hc => by simp [(mem_of_mem_fields hmem hc).2], by simpa using hpattern⟩

/-- The first lookup does not go to the link of another form. -/
theorem first_lookup_ne {form : Text × Text} (h : form ∈ rootForms) (hform : form ≠ partuuidForm)
    (x y : Text) :
    expand (.matching []) ("/dev/disk/by-partuuid/".toList ++ y) ≠ [form.2 ++ x] := by
  intro hexpand
  have hfields := (plain_of_expand_matching (form_path_ne_nil h) hexpand).1
  have hfree : ∀ c ∈ "/dev/disk/by-partuuid/".toList, isIfs c = false :=
    List.forall_iff_forall_mem.mp (by decide)
  obtain ⟨first, rest, hfirst⟩ := exists_fields_append (by decide) hfree y
  rw [hfirst, List.cons.injEq] at hfields
  exact ne_partuuid h hform first hfields.1.symm

section

variable {sourcing : Sourcing} {env : Text} {vars set : Variables} {form : Text × Text}
  {x link device : Text} {there : Nat → Bool} {delay timeout : Nat}

/-- The machine follows the schedule. -/
theorem lateBoot_follows (hmode : isSeparate set = false) (hdevice : IsDevicePath device)
    (k : Nat) :
    Follows (lateBoot sourcing link device hdevice there k) set link device there := by
  simp only [Follows, hmode, Bool.false_eq_true, if_false]
  intro j
  refine ⟨?_, fun hthere => ?_⟩
  · simp [lateBoot, Devices.late]
  · simp [lateBoot, Devices.late, hthere]

/-- What the machine resolves for a path: nothing, unless it is the link as one word. -/
theorem lateBoot_resolves (hdevice : IsDevicePath device) (k j : Nat) (t : Text)
    (h : expand (.matching []) t = [link] → there j = false) :
    substitution ((lateBoot sourcing link device hdevice there k).devices.realpath j
      (expand (lateBoot sourcing link device hdevice there k).pathname t)) = [] := by
  simp only [lateBoot, Devices.late]
  by_cases hexpand : expand (.matching []) t = [link]
  · simp [hexpand, h hexpand, substitution]
  · simp [hexpand, substitution]

/-- A link that was not resolved in time is not found. -/
theorem lateBoot_absent (hstays : ∀ k, there k = true → there (k + 1) = true)
    (hmode : isSeparate set = false) (hnames : Names set form x link)
    (hdevice : IsDevicePath device) {k : Nat}
    (hmissed : isPlainWord link = true → ¬ SeenBefore form there k) {j : Nat} (hj : j ≤ k) :
    present (lateBoot sourcing link device hdevice there k) set j = false := by
  simp only [Names, hmode, Bool.false_eq_true, if_false] at hnames
  obtain ⟨hform, hroot, rfl⟩ := hnames
  have hne : form.2 ++ x ≠ [] := form_path_ne_nil hform
  have hnone : deviceAt (lateBoot sourcing (form.2 ++ x) device hdevice there k) set j = [] := by
    cases j with
    | zero =>
        simp only [deviceAt, firstDevice, hmode, Bool.false_eq_true, if_false, hroot, resolved]
        refine lateBoot_resolves hdevice k 0 _ fun hexpand => ?_
        by_cases hpartuuid : form = partuuidForm
        -- A link with a blank or a pattern is never looked up under its own name.
        · have hplain := (plain_of_expand_matching hne hexpand).2
          by_contra hthere
          refine hmissed hplain ?_
          have hzero : there 0 = true := Bool.not_eq_false _ ▸ hthere
          cases k with
          | zero => exact ⟨hpartuuid, hzero⟩
          | succ k => exact there_mono hstays (Nat.zero_le k) hzero
        · exact absurd hexpand (first_lookup_ne hform hpartuuid x _)
    | succ j =>
        simp only [deviceAt, nextDevice, hmode, Bool.false_eq_true, if_false, hroot]
        rw [rootDevice_form hform]
        refine lateBoot_resolves hdevice k j _ fun hexpand => ?_
        have hplain := (plain_of_expand_matching hne hexpand).2
        by_contra hthere
        refine hmissed hplain ?_
        cases k with
        | zero => omega
        | succ k => exact there_mono hstays (by omega) (Bool.not_eq_false _ ▸ hthere)
  rw [present, hnone]
  exact isBlock_nil _ j

/-- A machine on which the module gives up although the link is there. -/
theorem lateBoot_givesUpAt (hstays : ∀ k, there k = true → there (k + 1) = true)
    (hsource : sourcing.source env (beforeSourcing vars) = some set)
    (hdelay : valueOr set Var.bootparamRootdelay "1".toList = decimal delay)
    (htimeout : valueOr set Var.bootparamRoottimeout "5".toList = decimal timeout)
    (hmode : isSeparate set = false) (hnames : Names set form x link)
    (hdevice : IsDevicePath device) (mappings : List Mapping) {k : Nat}
    (hmissed : isPlainWord link = true → ¬ SeenBefore form there k)
    (hmay : MayGiveUp delay timeout k) :
    GivesUpAt (lateBoot sourcing link device hdevice there k) env vars mappings k := by
  have habsent : ∀ j ≤ k, present (lateBoot sourcing link device hdevice there k) set j = false :=
    fun j hj => lateBoot_absent hstays hmode hnames hdevice hmissed hj
  have hover : ∀ j, overdue (lateBoot sourcing link device hdevice there k) set j =
      if Fits j delay timeout then some (decide (timeout < j * delay))
      else some (decide (k ≤ j)) := by
    intro j
    rw [overdue, hdelay, htimeout]
    exact Patience.beyond_exceeded _ j delay timeout
  have hsleeps : ∀ j < k, Sleeps (lateBoot sourcing link device hdevice there k) set j := by
    intro j hj
    refine ⟨habsent j hj.le, ?_⟩
    rw [hover j]
    split
    · next hfits => simpa using fun hlate => hmay.1 j hj ⟨hfits, hlate⟩
    · simpa using hj
  refine ⟨(ended_waiting_iff hsource k).mpr hsleeps,
    (last_look hsource hsleeps).2.mpr ⟨habsent k le_rfl, ?_⟩⟩
  rw [hover k]
  split
  · next hfits => simpa using hmay.2 hfits
  · simp

/-- The module gives up only while the link is not there, on every machine, exactly when the mode is
separate, or when a link that is there at the look that may be the last one was there at the lookup
before it, under a name that is one word. -/
theorem no_false_timeout_iff (hstays : ∀ k, there k = true → there (k + 1) = true)
    (hsource : sourcing.source env (beforeSourcing vars) = some set)
    (hdelay : valueOr set Var.bootparamRootdelay "1".toList = decimal delay)
    (htimeout : valueOr set Var.bootparamRoottimeout "5".toList = decimal timeout)
    (hnames : Names set form x link) (hdevice : IsDevicePath device) (mappings : List Mapping) :
    (∀ boot : Boot, boot.sourcing = sourcing → Follows boot set link device there →
      ∀ k, GivesUpAt boot env vars mappings k → there k = false) ↔
      isSeparate set = true ∨ ∀ k, MayGiveUp delay timeout k →
        there k = false ∨ isPlainWord link = true ∧ SeenBefore form there k := by
  cases hmode : isSeparate set with
  | true =>
      refine iff_of_true ?_ (.inl rfl)
      rintro boot rfl hfollows k hgives
      -- The separate mode tests the link itself.
      obtain ⟨-, hpresent⟩ := mayGiveUp_of_givesUpAt hsource hdelay htimeout hgives
      simp only [Names, Follows, hmode, if_true] at hnames hfollows
      have hat : deviceAt boot set k = link := by
        cases k <;> simp [deviceAt, firstDevice, nextDevice, hmode, hnames]
      rw [present, hat, hfollows k] at hpresent
      exact hpresent
  | false =>
      simp only [Bool.false_eq_true, false_or]
      constructor
      · intro h k hmay
        by_contra hmissed
        rw [not_or] at hmissed
        obtain ⟨hthere, hmissed⟩ := hmissed
        have hgives := lateBoot_givesUpAt hstays hsource hdelay htimeout hmode hnames hdevice
          mappings (fun hplain hseen => hmissed ⟨hplain, hseen⟩) hmay
        exact hthere (h _ rfl (lateBoot_follows hmode hdevice k) k hgives)
      · rintro h boot rfl hfollows k hgives
        obtain ⟨hmay, hpresent⟩ := mayGiveUp_of_givesUpAt hsource hdelay htimeout hgives
        rcases h k hmay with hthere | ⟨hplain, hseen⟩
        · exact hthere
        · by_contra hthere
          have hfound := present_of_seen hmode hnames hfollows hdevice hplain hseen
            (Bool.not_eq_false _ ▸ hthere)
          rw [hpresent] at hfound
          cases hfound

end

/-! ## A link that appears during the last sleep -/

/-- A boot that waits for a label with a delay of one second and a timeout of five. -/
def labelParameters : Variables :=
  assignAll (waitParameters 1 5) [(Var.bootparamRoot, "LABEL=root".toList)]

def labelForm : Text × Text := ("LABEL=".toList, "/dev/disk/by-label/".toList)

def labelLink : Text := "/dev/disk/by-label/root".toList

def labelDevice : Text := "/dev/sda2".toList

theorem labelDevice_path : IsDevicePath labelDevice := ⟨by decide, by decide, by decide⟩

/-- The schedule of a link that appears after `n` sleeps. -/
def appearsAfter (n k : Nat) : Bool := decide (n ≤ k)

theorem appearsAfter_stays (n k : Nat) (h : appearsAfter n k = true) :
    appearsAfter n (k + 1) = true :=
  decide_eq_true (Nat.le_succ_of_le (of_decide_eq_true h))

/-- The parameters name the link. -/
theorem labelParameters_names :
    isSeparate (beforeSourcing labelParameters) = false ∧
      Names (beforeSourcing labelParameters) labelForm "root".toList labelLink := by
  have hmode : isSeparate (beforeSourcing labelParameters) = false := by decide
  refine ⟨hmode, ?_⟩
  simp only [Names, hmode, Bool.false_eq_true, if_false]
  decide

/-- The delay and the timeout of the parameters. -/
theorem labelParameters_numbers :
    valueOr (beforeSourcing labelParameters) Var.bootparamRootdelay "1".toList = decimal 1 ∧
      valueOr (beforeSourcing labelParameters) Var.bootparamRoottimeout "5".toList = decimal 5 := by
  decide

/-- `no_false_timeout_iff` for a link that appears after three sleeps. -/
theorem no_false_timeout_label :
    (∀ boot : Boot, boot.sourcing = .linewise →
      Follows boot (beforeSourcing labelParameters) labelLink labelDevice (appearsAfter 3) →
      ∀ k, GivesUpAt boot [] labelParameters [] k → appearsAfter 3 k = false) ↔
      isSeparate (beforeSourcing labelParameters) = true ∨ ∀ k, MayGiveUp 1 5 k →
        appearsAfter 3 k = false ∨ isPlainWord labelLink = true ∧
          SeenBefore labelForm (appearsAfter 3) k :=
  no_false_timeout_iff (appearsAfter_stays 3) (sourcing_nil .linewise _) labelParameters_numbers.1
    labelParameters_numbers.2 labelParameters_names.2 labelDevice_path []

/-- A link that appears during the sixth sleep is there at the look after it, but the module tests
what it had resolved before the sleep, and gives up. -/
theorem late_link_missed :
    ∃ boot : Boot, boot.sourcing = .linewise ∧
      Follows boot (beforeSourcing labelParameters) labelLink labelDevice
        (appearsAfter 6) ∧
      GivesUpAt boot [] labelParameters [] 6 ∧ appearsAfter 6 6 = true := by
  have hmissed : isPlainWord labelLink = true → ¬ SeenBefore labelForm (appearsAfter 6) 6 :=
    fun _ => by simp [SeenBefore, appearsAfter]
  have hmay : MayGiveUp 1 5 6 := ⟨fun j hj hlate => by have := hlate.2; omega, fun _ => by omega⟩
  exact ⟨_, rfl, lateBoot_follows labelParameters_names.1 labelDevice_path 6,
    lateBoot_givesUpAt (appearsAfter_stays 6) (sourcing_nil .linewise _)
      labelParameters_numbers.1 labelParameters_numbers.2 labelParameters_names.1
      labelParameters_names.2 labelDevice_path [] hmissed hmay, rfl⟩

end MetaSecurity.Verity
