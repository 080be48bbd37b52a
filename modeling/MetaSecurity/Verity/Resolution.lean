import MetaSecurity.Verity.Timeout

/-!
# The two lookups of the root device

In appended mode `dmverity_run` resolves the `root` parameter before its loop, where it knows one
form of it, and again in the loop, where it knows six and takes everything else for a path. A
`LinkTree` is what the names below `/dev/disk` finally lead to. `resolution_iff` says for which
parameters the two lookups lead to the same device in every tree.
-/

namespace MetaSecurity.Verity

open Library Shell

/-! ## Link trees -/

/-- The part of a path behind its last slash. -/
def lastComponent (t : Text) : Text := t.rtakeWhile (· ≠ '/')

/-- The path ends in a slash, or its last component is `.` or `..`: it can only lead to a
directory. -/
def LeadsToDirectory (t : Text) : Prop := lastComponent t ∈ [[], ['.'], ['.', '.']]

/-- What the paths lead to when all links are there. A path with such an end leads to no block
device, and pathname expansion keeps the end. -/
structure LinkTree where
  pathname : PathnameExpansion
  isBlock : Text → Bool
  realpath : List Text → Text
  path : ∀ p, isBlock p = true → IsDevicePath p
  ends : ∀ word, LeadsToDirectory word → ∀ name ∈ pathname.names word, LeadsToDirectory name
  directory : ∀ p, LeadsToDirectory p → isBlock p = false
  directories : ∀ ps, (∀ p ∈ ps, LeadsToDirectory p) → isBlock (substitution (realpath ps)) = false

namespace LinkTree

/-- The devices of a machine on which the links appear after `since` sleeps. -/
def devices (tree : LinkTree) (since : Nat) : Devices where
  isBlock k path := decide (since ≤ k) && tree.isBlock path
  realpath k args := if since ≤ k then tree.realpath args else []
  path k path h := by
    rw [Bool.and_eq_true] at h
    exact tree.path path h.2

/-- A machine with these links. -/
def boot (tree : LinkTree) (base : Boot) (since : Nat) : Boot :=
  { base with pathname := tree.pathname, devices := tree.devices since }

/-- What was resolved, as a device. -/
def device (tree : LinkTree) (resolved : Text) : Option Text :=
  if tree.isBlock resolved then some resolved else none

/-- The device of the lookup before the loop. -/
def early (tree : LinkTree) (base : Boot) (root : Text) : Option Text :=
  tree.device (resolved (tree.boot base 0) 0 partuuidForm root)

/-- The device of the lookup in the loop. -/
def late (tree : LinkTree) (base : Boot) (root : Text) : Option Text :=
  tree.device (rootDevice (tree.boot base 0) root 0)

end LinkTree

/-- The two lookups lead to the same device, or both to none, in every tree. -/
def ResolvesAlike (root : Text) : Prop :=
  ∀ (tree : LinkTree) (base : Boot), tree.early base root = tree.late base root

/-- The module finds the same device whenever the links appear, if it finds one. -/
def FindsAlike (set : Variables) : Prop :=
  ∀ (tree : LinkTree) (base : Boot) (since since' fuel fuel' : Nat) (data data' : Text),
    awaited (tree.boot base since) set fuel = .found data →
      awaited (tree.boot base since') set fuel' = .found data' → data = data'

/-! ## Runs -/

section

variable {tree : LinkTree} {base : Boot} {set : Variables}

/-- Nothing is resolved before the links are there. -/
theorem resolved_since (since k : Nat) (form : Text × Text) (root : Text) :
    resolved (tree.boot base since) k form root =
      if since ≤ k then resolved (tree.boot base 0) 0 form root else [] := by
  simp only [resolved, LinkTree.boot, LinkTree.devices, Nat.zero_le, if_true]
  split <;> rfl

theorem LinkTree.isBlock_nil (tree : LinkTree) : tree.isBlock [] = false := by
  by_contra h
  exact (tree.path [] (Bool.not_eq_false _ ▸ h)).ne_nil rfl

/-- What the loop resolves to a block device, it resolves to the same when all links are there. -/
theorem rootDevice_since {since k : Nat} {root : Text}
    (h : tree.isBlock (rootDevice (tree.boot base since) root k) = true) :
    rootDevice (tree.boot base since) root k = rootDevice (tree.boot base 0) root 0 := by
  unfold rootDevice at h ⊢
  split
  · next form hform =>
    rw [hform] at h
    simp only at h
    rw [resolved_since] at h ⊢
    split at h
    · next hsince => rw [if_pos hsince]
    · rw [tree.isBlock_nil] at h
      cases h
  · rfl

/-- A device that is found is that of one of the two lookups. -/
theorem device_of_found (hmode : isSeparate set = false) {since fuel : Nat} {data : Text}
    (h : awaited (tree.boot base since) set fuel = .found data) :
    tree.early base (set Var.bootparamRoot) = some data ∨
      tree.late base (set Var.bootparamRoot) = some data := by
  obtain ⟨k, hpresent, rfl⟩ := exists_of_awaited_found h
  have hblock : (since ≤ k) ∧
      tree.isBlock (deviceAt (tree.boot base since) set k) = true := by
    simpa [present, LinkTree.boot, LinkTree.devices] using hpresent
  obtain ⟨hsince, hblock⟩ := hblock
  cases k with
  | zero =>
      -- Before the loop only `PARTUUID=` is known.
      have hat : deviceAt (tree.boot base since) set 0 =
          resolved (tree.boot base since) 0 partuuidForm (set Var.bootparamRoot) := by
        simp only [deviceAt, firstDevice, hmode, Bool.false_eq_true, if_false]
        rfl
      rw [hat, resolved_since, if_pos hsince] at hblock ⊢
      exact .inl (if_pos hblock)
  | succ k =>
      have hat : deviceAt (tree.boot base since) set (k + 1) =
          rootDevice (tree.boot base since) (set Var.bootparamRoot) k := by
        simp only [deviceAt, nextDevice, hmode, Bool.false_eq_true, if_false]
      rw [hat] at hblock ⊢
      have hsame := rootDevice_since hblock
      rw [hsame] at hblock ⊢
      exact .inr (if_pos hblock)

/-- When the lookups lead to the same device, so do the runs. -/
theorem findsAlike_of_resolvesAlike (hmode : isSeparate set = false)
    (h : ResolvesAlike (set Var.bootparamRoot)) : FindsAlike set := by
  intro tree base since since' fuel fuel' data data' hfound hfound'
  have hsame := h tree base
  have hearly : ∀ d, tree.early base (set Var.bootparamRoot) = some d ∨
      tree.late base (set Var.bootparamRoot) = some d →
      tree.early base (set Var.bootparamRoot) = some d := fun d hd =>
    hd.elim id fun hlate => hsame.trans hlate
  have hdata := hearly data (device_of_found hmode hfound)
  rw [hearly data' (device_of_found hmode hfound'), Option.some.injEq] at hdata
  exact hdata.symm

end

/-! ## Paths that lead to directories -/

theorem lastComponent_append_of_slash {back : Text} (h : '/' ∈ back) (front : Text) :
    lastComponent (front ++ back) = lastComponent back := by
  have hcut : ((back.reverse).takeWhile (· ≠ '/')).length ≠ back.reverse.length := fun hlength => by
    have hall := List.takeWhile_eq_self_iff.mp
      ((List.takeWhile_prefix _).eq_of_length hlength) '/' (List.mem_reverse.mpr h)
    simp at hall
  rw [lastComponent, List.rtakeWhile, List.reverse_append, List.takeWhile_append, if_neg hcut]
  rfl

theorem lastComponent_append_of_not_slash {back : Text} (h : '/' ∉ back) (front : Text) :
    lastComponent (front ++ back) = lastComponent front ++ back := by
  have hfree : ∀ c ∈ back.reverse, decide (c ≠ '/') = true := fun c hc =>
    decide_eq_true fun heq => h (heq ▸ List.mem_reverse.mp hc)
  rw [lastComponent, List.rtakeWhile, List.reverse_append, List.takeWhile_append_of_pos hfree,
    List.reverse_append, List.reverse_reverse]
  rfl

/-- The end of a word shows where it leads when something stands behind a beginning that is more
than dots. -/
theorem leadsToDirectory_append {front back : Text} (hfront : ∃ c ∈ lastComponent front, c ≠ '.')
    (h : LeadsToDirectory (front ++ back)) (other : Text) : LeadsToDirectory (other ++ back) := by
  by_cases hslash : '/' ∈ back
  · rw [LeadsToDirectory, lastComponent_append_of_slash hslash] at h ⊢
    exact h
  · rw [LeadsToDirectory, lastComponent_append_of_not_slash hslash] at h
    obtain ⟨c, hc, hne⟩ := hfront
    have hdots : [[], ['.'], ['.', '.']].Forall fun t : Text => ∀ c ∈ t, c = '.' := by simp
    exact absurd (List.forall_iff_forall_mem.mp hdots _ h c (List.mem_append_left _ hc)) hne

/-- When all words of a text lead to directories, so they do after another beginning of the first
one. -/
theorem words_leadToDirectory {front other x : Text} (hfront : ∀ c ∈ front, isIfs c = false)
    (hother : ∀ c ∈ other, isIfs c = false) (hne : front ≠ []) (hne' : other ≠ [])
    (hmore : ∃ c ∈ lastComponent front, c ≠ '.')
    (h : ∀ word ∈ fields isIfs (front ++ x), LeadsToDirectory word) :
    ∀ word ∈ fields isIfs (other ++ x), LeadsToDirectory word := by
  rcases exists_first_sep isIfs x with hfree | ⟨first, sep, rest, rfl, hsep, hfirst⟩
  · have hword : ∀ {start : Text}, start ≠ [] → (∀ c ∈ start, isIfs c = false) →
        fields isIfs (start ++ x) = [start ++ x] := fun hstart hc =>
      fields_eq_singleton (List.append_ne_nil_of_left_ne_nil hstart x) fun c hmem =>
        (List.mem_append.mp hmem).elim (hc c) (hfree c)
    rw [hword hne hfront] at h
    rw [hword hne' hother]
    intro word hmem
    rw [List.mem_singleton.mp hmem]
    exact leadsToDirectory_append hmore (h _ List.mem_cons_self) other
  · have hword : ∀ {start : Text}, start ≠ [] → (∀ c ∈ start, isIfs c = false) →
        fields isIfs (start ++ (first ++ sep :: rest)) = (start ++ first) :: fields isIfs rest := by
      intro start hstart hc
      rw [← List.append_assoc]
      exact fields_append_sep_of_forall hsep (List.append_ne_nil_of_left_ne_nil hstart first)
        (fun c hmem => (List.mem_append.mp hmem).elim (hc c) (hfirst c)) rest
    rw [hword hne hfront] at h
    rw [hword hne' hother]
    intro word hmem
    rcases List.mem_cons.mp hmem with rfl | hmem
    · exact leadsToDirectory_append hmore (h _ List.mem_cons_self) other
    · exact h word (List.mem_cons_of_mem _ hmem)

/-- Words that lead to directories lead to no device. -/
theorem device_of_directories (tree : LinkTree) {t : Text}
    (h : ∀ word ∈ fields isIfs t, LeadsToDirectory word) :
    tree.device (substitution (tree.realpath (expand tree.pathname t))) = none := by
  refine if_neg ?_
  have hall : ∀ name ∈ expand tree.pathname t, LeadsToDirectory name := by
    intro name hname
    obtain ⟨word, hword, hmem⟩ := List.mem_flatMap.mp hname
    exact tree.ends word (h word hword) name hmem
  simp [tree.directories _ hall]

/-- The words that the lookup before the loop gives to `realpath`. -/
def firstWords (root : Text) : List Text :=
  fields isIfs (partuuidForm.2 ++ withoutPrefix partuuidForm.1 root)

/-- The parameter has the form that both lookups know, or leads to directories. -/
def KnownForm (root : Text) : Prop :=
  partuuidForm.1.isPrefixOf root = true ∨ ∀ word ∈ firstWords root, LeadsToDirectory word

theorem mem_rootForms_partuuid : partuuidForm ∈ rootForms := by decide

/-- The parts of a form are single words, and the prefix is more than dots. -/
theorem form_spec {form : Text × Text} (h : form ∈ rootForms) :
    (∀ c ∈ form.1, isIfs c = false) ∧ (∀ c ∈ form.2, isIfs c = false) ∧ form.1 ≠ [] ∧
      form.2 ≠ [] ∧ ∃ c ∈ lastComponent (partuuidForm.2 ++ form.1), c ≠ '.' := by
  have hall : rootForms.Forall fun form => form.1.all (fun c => !isIfs c) = true ∧
      form.2.all (fun c => !isIfs c) = true ∧ form.1 ≠ [] ∧ form.2 ≠ [] ∧
      (lastComponent (partuuidForm.2 ++ form.1)).any (fun c => c != '.') = true := by
    decide +kernel
  obtain ⟨hword, hpath, hne, hne', hmore⟩ := List.forall_iff_forall_mem.mp hall form h
  rw [List.all_eq_true] at hword hpath
  obtain ⟨c, hc, hdot⟩ := List.any_eq_true.mp hmore
  exact ⟨fun c hc => by simpa using hword c hc, fun c hc => by simpa using hpath c hc, hne, hne',
    c, hc, bne_iff_ne.mp hdot⟩

/-- The lookup in the loop, by the form of the parameter. -/
theorem rootDevice_cases (root : Text) :
    (∃ form ∈ rootForms, ∃ x, root = form.1 ++ x ∧ ∀ boot k, rootDevice boot root k =
      substitution (boot.devices.realpath k (expand boot.pathname (form.2 ++ x)))) ∨
      (∀ form ∈ rootForms, form.1.isPrefixOf root = false) ∧
        ∀ boot k, rootDevice boot root k = root := by
  cases hfind : rootForms.find? fun form => form.1.isPrefixOf root with
  | none =>
      rw [List.find?_eq_none] at hfind
      refine .inr ⟨fun form hform => Bool.not_eq_true _ ▸ hfind form hform, fun boot k => ?_⟩
      rw [rootDevice, List.find?_eq_none.mpr hfind]
  | some form =>
      have hform : form ∈ rootForms := List.mem_of_find?_eq_some hfind
      have hbegin : form.1.isPrefixOf root = true := by
        have hfound := List.find?_some hfind
        exact hfound
      obtain ⟨x, rfl⟩ := List.isPrefixOf_iff_prefix.mp hbegin
      exact .inl ⟨form, hform, x, rfl, rootDevice_form hform⟩

/-- The lookup before the loop takes a parameter without its prefix for a name. -/
theorem firstWords_of_not_prefix {root : Text} (h : ¬ partuuidForm.1.isPrefixOf root = true) :
    withoutPrefix partuuidForm.1 root = root :=
  if_neg h

/-- Where the lookup before the loop finds only directories, so does the one in the loop. -/
theorem late_of_directories (tree : LinkTree) (base : Boot) {root : Text}
    (hbegin : ¬ partuuidForm.1.isPrefixOf root = true)
    (h : ∀ word ∈ firstWords root, LeadsToDirectory word) : tree.late base root = none := by
  rw [firstWords, firstWords_of_not_prefix hbegin] at h
  rcases rootDevice_cases root with ⟨form, hform, x, rfl, hlookup⟩ | ⟨-, hliteral⟩
  · obtain ⟨hword, hpath, -, hne, hmore⟩ := form_spec hform
    have hfront : ∀ c ∈ partuuidForm.2 ++ form.1, isIfs c = false := fun c hc =>
      (List.mem_append.mp hc).elim ((form_spec mem_rootForms_partuuid).2.1 c) (hword c)
    rw [← List.append_assoc] at h
    have hne' : partuuidForm.2 ++ form.1 ≠ [] :=
      List.append_ne_nil_of_left_ne_nil (form_spec mem_rootForms_partuuid).2.2.2.1 _
    rw [LinkTree.late, hlookup]
    exact device_of_directories tree (words_leadToDirectory hfront hpath hne' hne hmore h)
  · -- The loop takes the parameter for a path; a device path has another end.
    rw [LinkTree.late, hliteral, LinkTree.device]
    refine if_neg fun hblock => ?_
    have hdevice := tree.path root hblock
    have hfree : ∀ c ∈ root, isIfs c = false := by
      have hplain := hdevice.plain
      simp only [isPlainWord, Bool.and_eq_true, List.all_eq_true] at hplain
      exact fun c hc => by simpa using hplain.1 c hc
    have hne : partuuidForm.2 ++ root ≠ [] := List.append_ne_nil_of_right_ne_nil _ hdevice.ne_nil
    have hfields : fields isIfs (partuuidForm.2 ++ root) = [partuuidForm.2 ++ root] :=
      fields_eq_singleton hne fun c hc =>
        (List.mem_append.mp hc).elim ((form_spec mem_rootForms_partuuid).2.1 c) (hfree c)
    have hend := h (partuuidForm.2 ++ root) (by simp [hfields])
    rw [LeadsToDirectory, lastComponent_append_of_slash hdevice.slash] at hend
    rw [tree.directory root hend] at hblock
    cases hblock

/-- A parameter of a known form is resolved alike. -/
theorem resolvesAlike_of_knownForm {root : Text} (h : KnownForm root) : ResolvesAlike root := by
  intro tree base
  have hearly : tree.early base root = tree.device (substitution (tree.realpath
      (expand tree.pathname (partuuidForm.2 ++ withoutPrefix partuuidForm.1 root)))) := rfl
  by_cases hbegin : partuuidForm.1.isPrefixOf root = true
  · obtain ⟨x, rfl⟩ := List.isPrefixOf_iff_prefix.mp hbegin
    rw [hearly, withoutPrefix_append, LinkTree.late, rootDevice_form mem_rootForms_partuuid]
    rfl
  · have hends := h.resolve_left hbegin
    rw [hearly, device_of_directories tree hends, late_of_directories tree base hbegin hends]

/-! ## A tree that tells the lookups apart -/

/-- A tree in which only these words lead to a device. -/
def LinkTree.only (words : List Text) (device : Text) (h : IsDevicePath device)
    (hend : ¬ LeadsToDirectory device) (hwords : ∃ word ∈ words, ¬ LeadsToDirectory word) :
    LinkTree where
  pathname := .literal
  isBlock p := p = device
  realpath args := if args = words then device ++ ['\n'] else []
  path p hblock := of_decide_eq_true hblock ▸ h
  ends word hword name hname := by
    rw [List.mem_singleton.mp hname]
    exact hword
  directory p hdirectory := decide_eq_false fun heq => hend (heq ▸ hdirectory)
  directories ps hends := by
    have hne : ps ≠ words := by
      rintro rfl
      obtain ⟨word, hword, hnot⟩ := hwords
      exact hnot (hends word hword)
    rw [if_neg hne]
    exact decide_eq_false fun heq => h.ne_nil heq.symm

theorem expand_literal (t : Text) : expand .literal t = fields isIfs t := by
  simp [expand, PathnameExpansion.literal]

/-- Different directories give different words. -/
theorem words_ne {form : Text × Text} (h : form ∈ rootForms) (hform : form ≠ partuuidForm)
    (x y : Text) : fields isIfs (form.2 ++ x) ≠ fields isIfs (partuuidForm.2 ++ y) := by
  intro heq
  obtain ⟨-, hpath, -, hne, -⟩ := form_spec h
  obtain ⟨-, hpath', -, hne', -⟩ := form_spec mem_rootForms_partuuid
  obtain ⟨first, rest, hfirst⟩ := exists_fields_append hne hpath x
  obtain ⟨first', rest', hfirst'⟩ := exists_fields_append hne' hpath' y
  rw [hfirst, hfirst', List.cons.injEq] at heq
  exact ne_partuuid h hform first' heq.1

/-- A parameter of another form is not resolved alike in every tree. -/
theorem knownForm_of_resolvesAlike {root : Text} (h : ResolvesAlike root) : KnownForm root := by
  by_contra hknown
  rw [KnownForm, not_or] at hknown
  obtain ⟨hbegin, hwords⟩ := hknown
  have hwords' : ∃ word ∈ firstWords root, ¬ LeadsToDirectory word := by
    by_contra hall
    exact hwords fun word hword => by_contra fun hnot => hall ⟨word, hword, hnot⟩
  -- A device that is not the parameter itself.
  obtain ⟨device, hdevice, hend, hne⟩ : ∃ device, IsDevicePath device ∧
      ¬ LeadsToDirectory device ∧ root ≠ device := by
    have hends : lastComponent "/dev/sda".toList ∉ [[], ['.'], ['.', '.']] ∧
        lastComponent "/dev/sdb".toList ∉ [[], ['.'], ['.', '.']] := by decide
    by_cases hroot : root = "/dev/sda".toList
    · exact ⟨"/dev/sdb".toList, ⟨by decide, by decide, by decide⟩, hends.2, by simp [hroot]⟩
    · exact ⟨"/dev/sda".toList, ⟨by decide, by decide, by decide⟩, hends.1, hroot⟩
  have hearly : (LinkTree.only _ device hdevice hend hwords').early absentBoot root =
      some device := by
    have hresolved : resolved ((LinkTree.only _ device hdevice hend hwords').boot absentBoot 0) 0
        partuuidForm root = device := by
      simp [resolved, LinkTree.boot, LinkTree.devices, LinkTree.only, expand_literal, firstWords,
        substitution_device hdevice]
    rw [LinkTree.early, hresolved]
    simp [LinkTree.device, LinkTree.only]
  have hlate : (LinkTree.only _ device hdevice hend hwords').late absentBoot root = none := by
    rw [LinkTree.late]
    rcases rootDevice_cases root with ⟨form, hform, x, rfl, hlookup⟩ | ⟨-, hliteral⟩
    · have hother : form ≠ partuuidForm := by
        rintro rfl
        simp at hbegin
      have hfields : fields isIfs (form.2 ++ x) ≠ firstWords (form.1 ++ x) :=
        words_ne hform hother x _
      rw [hlookup]
      simp [LinkTree.boot, LinkTree.devices, LinkTree.only, expand_literal, hfields,
        LinkTree.device, substitution, hdevice.ne_nil.symm]
    · rw [hliteral]
      simp [LinkTree.device, LinkTree.only, hne]
  have hsame := h (LinkTree.only _ device hdevice hend hwords') absentBoot
  rw [hearly, hlate] at hsame
  cases hsame

/-! ## Resolution and timing -/

/-- The two lookups lead to the same device in every tree, and the module finds the same device
whenever the links appear, exactly when the parameter begins with `PARTUUID=` or the first lookup
finds directories only. -/
theorem resolution_iff {set : Variables} (hmode : isSeparate set = false) :
    (ResolvesAlike (set Var.bootparamRoot) ∧ FindsAlike set) ↔
      KnownForm (set Var.bootparamRoot) := by
  refine ⟨fun h => knownForm_of_resolvesAlike h.1, fun h => ?_⟩
  have halike := resolvesAlike_of_knownForm h
  exact ⟨halike, findsAlike_of_resolvesAlike hmode halike⟩

/-- `resolution_iff` for a label. -/
theorem resolution_label :
    (ResolvesAlike (beforeSourcing labelParameters Var.bootparamRoot) ∧
      FindsAlike (beforeSourcing labelParameters)) ↔
      KnownForm (beforeSourcing labelParameters Var.bootparamRoot) :=
  resolution_iff labelParameters_names.1

/-- A partition UUID without its prefix is found by the first lookup and not by the others. -/
theorem bare_partuuid_not_alike : ¬ ResolvesAlike "1234-02".toList := by
  intro h
  rcases knownForm_of_resolvesAlike h with hbegin | hends
  · exact absurd hbegin (by decide)
  · have hwords : firstWords "1234-02".toList = ["/dev/disk/by-partuuid/1234-02".toList] := by
      decide
    have hend : lastComponent "/dev/disk/by-partuuid/1234-02".toList ∉ [[], ['.'], ['.', '.']] := by
      decide
    exact hend (hends _ (by rw [hwords]; exact List.mem_cons_self))

end MetaSecurity.Verity
