import MetaSecurity.Signing.Rootfs
import Mathlib.Data.Set.Insert

/-!
# Which files a successful run leaves signed

`StaleWithin stale` is the invariant that is carried through the function: all files outside the
set `stale` have a signature that matches their content. Writing a file adds it to the set, signing
takes the signed files out, and `signing_covers_iff` says when nothing is left in it at the end.
-/

namespace MetaSecurity.Signing

open Library Shell

/-! ## The effect of a step on the set of stale files -/

/-- Every file outside `stale` has a signature that matches its content. -/
def StaleWithin (tools : Tools) (stale : Set Path) (rootfs : Rootfs) : Prop :=
  ∀ path file, path ∉ stale → rootfs path = some file →
    ∃ signature, file.signature = some signature ∧ tools.verifies signature file.content = true

/-- Every regular file has a signature that matches its content. -/
def Covered (tools : Tools) (rootfs : Rootfs) : Prop :=
  StaleWithin tools ∅ rootfs

variable {tools : Tools} {stale : Set Path} {path : Path} {rootfs : Rootfs}

/-- A larger set is a weaker statement. -/
theorem StaleWithin.mono {larger : Set Path} (h : StaleWithin tools stale rootfs)
    (hle : stale ⊆ larger) : StaleWithin tools larger rootfs :=
  fun path file hpath => h path file fun hstale => hpath (hle hstale)

/-- Whatever is put in the place of one file, the other files keep their signatures. -/
theorem StaleWithin.update (h : StaleWithin tools stale rootfs) (path : Path)
    (file : Option File) :
    StaleWithin tools (insert path stale) (Function.update rootfs path file) := by
  intro other found hother hfound
  rw [Set.mem_insert_iff, not_or] at hother
  rw [Function.update_of_ne hother.1] at hfound
  exact h other found hother.2 hfound

/-- What is signed is no longer stale. -/
theorem sign_spec (options key : Text) (selected : Path → Bool) :
    Triple (StaleWithin tools stale) (tools.sign options key selected)
      (StaleWithin tools {path ∈ stale | selected path = false}) := by
  intro before after hbefore h path file hpath hfile
  have hsigned := tools.sign_done h
  cases hselected : selected path with
  | true => exact hsigned.signed path file hselected hfile
  | false =>
      rw [hsigned.others path hselected] at hfile
      exact hbefore path file (fun hstale => hpath ⟨hstale, hselected⟩) hfile

/-- A step that is not refused has its effect. -/
theorem attempt_spec {P Q : Rootfs → Prop} {operation : Operation} {effect : Rootfs → Rootfs}
    (h : ∀ rootfs, P rootfs → Q (effect rootfs)) :
    Triple P (attempt tools operation path effect) Q := by
  intro before after hbefore hdone
  unfold attempt at hdone
  split at hdone
  · cases hdone
  · cases hdone
    exact h before hbefore

/-- `install` makes its target stale. -/
theorem install_spec (source : Text) :
    Triple (StaleWithin tools stale) (install tools source path)
      (StaleWithin tools (insert path stale)) := by
  intro before after hbefore hdone
  unfold install at hdone
  split at hdone
  · cases hdone
  · exact attempt_spec (fun _ h => h.update path _) before after hbefore hdone

/-- The files that the installation of the policy leaves stale. -/
def Config.stalePolicy (c : Config) : Set Path :=
  {path | c.imaEvmPolicy ≠ none ∧ path = c.policyFile ∧ path ≠ signedPolicy}

/-- The policy is signed if it is installed where it is signed. -/
theorem installPolicy_spec (c : Config) (options : Text) :
    Triple (Covered tools) (installPolicy c tools options)
      (StaleWithin tools c.stalePolicy) := by
  unfold installPolicy
  cases hpolicy : c.imaEvmPolicy with
  | none =>
      intro before after hbefore hdone
      cases hdone
      exact hbefore.mono (Set.empty_subset _)
  | some source =>
      have hdirectory : Triple (Covered tools)
          (attempt tools .installDirectory c.policyFile.dropLast id) (Covered tools) :=
        attempt_spec fun _ h => h
      have hremove : Triple (Covered tools)
          (attempt tools .remove c.policyFile (remove c.policyFile))
          (StaleWithin tools {c.policyFile}) := by
        refine attempt_spec fun rootfs h => ?_
        have hupdated := h.update c.policyFile none
        rwa [insert_empty_eq] at hupdated
      have hsign : Triple (StaleWithin tools {c.policyFile}) _ _ :=
        sign_spec options c.imaEvmPrivkey fun path => path = signedPolicy
      have hleft : {path ∈ ({c.policyFile} : Set Path) | decide (path = signedPolicy) = false} ⊆
          c.stalePolicy := by
        rintro path ⟨hpath, hsigned⟩
        exact ⟨by simp [hpolicy], hpath, of_decide_eq_false hsigned⟩
      refine hdirectory.cons (hremove.cons ((install_spec source).cons (Triple.cons ?_ .nil)))
      intro before after hbefore hdone
      rw [Set.insert_eq_of_mem (Set.mem_singleton c.policyFile)] at hbefore
      exact (hsign before after hbefore hdone).mono hleft

/-- A list that is written is stale. -/
theorem writeSignatures_spec (name : Text) (list : Option Path) :
    Triple (StaleWithin tools stale) (writeSignatures tools name list)
      (StaleWithin tools ({path | list = some path} ∪ stale)) := by
  cases list with
  | none =>
      intro before after hbefore hdone
      cases hdone
      exact hbefore.mono Set.subset_union_right
  | some path =>
      refine attempt_spec fun rootfs h => (h.update path _).mono ?_
      rintro other (rfl | hother)
      · exact Or.inl rfl
      · exact Or.inr hother

/-- The files that a successful run leaves stale, at most. -/
def Config.leftStale (c : Config) : Set Path :=
  {path | c.evmFileSignaturesFile = some path} ∪
    ({path | c.imaFileSignaturesFile = some path} ∪ c.stalePolicy)

/-- A successful run leaves no other file stale, whatever it started from. -/
theorem imaEvmSignRootfs_spec (c : Config) :
    Triple (fun _ => True) (imaEvmSignRootfs c tools) (StaleWithin tools c.leftStale) := by
  have hsign : ∀ options, Triple (fun _ => True)
      (tools.sign options c.imaEvmPrivkey fun _ => true) (Covered tools) := by
    intro options before after _ hdone
    have hall : StaleWithin tools Set.univ before := fun path _ hpath => absurd trivial hpath
    refine (sign_spec options _ _ before after hall hdone).mono ?_
    rintro path ⟨-, hselected⟩
    cases hselected
  refine Triple.andThen (Q := fun _ => True) (fun _ _ _ _ => trivial) ?_
  intro before after _ hdone
  cases hparam : evmctlParam (tools.elfClass libc before) with
  | none => simp [hparam] at hdone
  | some options =>
      simp only [hparam] at hdone
      refine (hsign options).cons ((Triple.require _).cons ((Triple.require _).cons
        ((installPolicy_spec c options).cons ((writeSignatures_spec _ _).cons
          ((writeSignatures_spec _ _).cons .nil))))) before after trivial hdone

/-! ## A run that leaves all of them stale -/

/-- A library, a policy and a list; what matters is that they differ. -/
def elf : Text := "\x7fELF".toList

/-- The text of a policy. -/
def policyText : Text := "measure func=BPRM_CHECK\n".toList

/-- The text of a list of signatures. -/
def listing : Text := "/lib/libc.so.6 ima:0x0302\n".toList

/-- Sign the selected files, with the content for the signature. -/
def signFiles (selected : Path → Bool) (rootfs : Rootfs) : Rootfs := fun path =>
  if selected path then (rootfs path).map fun file => { file with signature := some file.content }
  else rootfs path

/-- Tools that never fail; a signature is the content that was signed. -/
def plainTools : Tools where
  perl _ content := some content
  elfClass path rootfs := if (rootfs path).isSome then "ELF 64-bit".toList else []
  sign _ _ selected rootfs := .done (signFiles selected rootfs)
  imaVerify _ _ path rootfs := (rootfs path).any fun file => file.signature = some file.content
  verify _ _ path rootfs := (rootfs path).any fun file => file.signature = some file.content
  hostFile _ := some policyText
  getfattr _ _ := listing
  refuses _ _ _ := false
  verifies signature content := signature = content
  sign_done := by
    intro options key selected before after h
    cases h
    refine ⟨fun path hpath => by simp [signFiles, hpath], fun path file hpath hfile => ?_⟩
    simp only [signFiles, hpath, if_true, Option.map_eq_some_iff] at hfile
    obtain ⟨old, -, rfl⟩ := hfile
    exact ⟨old.content, rfl, decide_eq_true rfl⟩

/-- A library, and the policy of an earlier run. -/
def plainRootfs : Rootfs := fun path =>
  if path = libc then some ⟨elf, none⟩
  else if path = signedPolicy then some ⟨policyText, none⟩
  else none

/-- Neither a list nor the signature of one. -/
def File.Clean (file : File) : Prop :=
  file.content ≠ listing ∧ file.signature ≠ some listing

/-- No file is a list. -/
def Clean (rootfs : Rootfs) : Prop :=
  ∀ path file, rootfs path = some file → file.Clean

/-- The file at `path` has no matching signature. -/
def StaleAt (rootfs : Rootfs) (path : Path) : Prop :=
  ∃ file, rootfs path = some file ∧ file.signature ≠ some file.content

/-- Putting a file that is not a list, or none, in the place of another. -/
theorem Clean.update {rootfs : Rootfs} (h : Clean rootfs) {path : Path} {replaced : Option File}
    (hfile : ∀ file, replaced = some file → file.Clean) :
    Clean (Function.update rootfs path replaced) := by
  intro other file hfound
  by_cases hother : other = path
  · subst hother
    rw [Function.update_self] at hfound
    exact hfile file hfound
  · rw [Function.update_of_ne hother] at hfound
    exact h other file hfound

/-- Signing files that are not lists. -/
theorem Clean.signFiles {rootfs : Rootfs} (h : Clean rootfs) (selected : Path → Bool) :
    Clean (signFiles selected rootfs) := by
  intro path file hfound
  unfold Signing.signFiles at hfound
  split at hfound
  · obtain ⟨old, hold, rfl⟩ := Option.map_eq_some_iff.mp hfound
    have hclean := (h path old hold).1
    exact ⟨hclean, fun hsigned => hclean (Option.some.inj hsigned)⟩
  · exact h path file hfound

/-- The policy is left without a signature unless it is installed where it is signed. -/
theorem plain_installPolicy (c : Config) (options : Text) {before : Rootfs}
    (hbefore : Clean before) : ∃ after, installPolicy c plainTools options before = .done after ∧
      Clean after ∧ ∀ path ∈ c.stalePolicy, StaleAt after path := by
  unfold installPolicy
  cases hpolicy : c.imaEvmPolicy with
  | none => exact ⟨before, rfl, hbefore, fun path hpath => absurd hpolicy hpath.1⟩
  | some source =>
      refine ⟨signFiles (fun path => path = signedPolicy)
        (create c.policyFile policyText (remove c.policyFile before)), rfl, ?_, ?_⟩
      · refine Clean.signFiles (Clean.update (hbefore.update ?_) ?_) _
        · intro file hfile
          cases hfile
        · intro file hfile
          cases hfile
          exact ⟨by decide, by decide⟩
      · rintro path ⟨-, rfl, hsigned⟩
        refine ⟨⟨policyText, none⟩, ?_, by simp⟩
        simp [signFiles, hsigned, create]

/-- A list is left without a matching signature, and so is what was without one before. -/
theorem plain_writeSignatures (name : Text) (list : Option Path) {before : Rootfs}
    (hbefore : ∀ path file, before path = some file → file.signature ≠ some listing) :
    ∃ after, writeSignatures plainTools name list before = .done after ∧
      (∀ path file, after path = some file → file.signature ≠ some listing) ∧
      (∀ path, StaleAt before path → StaleAt after path) ∧
      ∀ path, list = some path → StaleAt after path := by
  cases list with
  | none => exact ⟨before, rfl, hbefore, fun _ h => h, fun _ h => nomatch h⟩
  | some target =>
      have hkept : (before target).bind File.signature ≠ some listing := by
        intro h
        obtain ⟨file, hfile, hsignature⟩ := Option.bind_eq_some_iff.mp h
        exact hbefore target file hfile hsignature
      have hwritten : redirect target listing before target =
          some ⟨listing, (before target).bind File.signature⟩ := Function.update_self ..
      have hstale : StaleAt (redirect target listing before) target := ⟨_, hwritten, hkept⟩
      have hother : ∀ path, path ≠ target →
          redirect target listing before path = before path :=
        fun path hpath => Function.update_of_ne hpath ..
      refine ⟨redirect target listing before, rfl, ?_, ?_, ?_⟩
      · intro path file hfile
        by_cases hpath : path = target
        · rw [hpath, hwritten] at hfile
          cases hfile
          exact hkept
        · rw [hother path hpath] at hfile
          exact hbefore path file hfile
      · intro path h
        by_cases hpath : path = target
        · exact hpath ▸ hstale
        · obtain ⟨file, hfile, hsignature⟩ := h
          exact ⟨file, by rw [hother path hpath, hfile], hsignature⟩
      · intro path h
        cases h
        exact hstale

/-- The root file system of the run after all of it was signed. -/
def signedRootfs : Rootfs := signFiles (fun _ => true) plainRootfs

/-- What is signed first are no lists. -/
theorem clean_signedRootfs : Clean signedRootfs := by
  refine Clean.signFiles (fun path file hfile => ?_) _
  unfold plainRootfs at hfile
  split at hfile
  · cases hfile
    exact ⟨by decide, by decide⟩
  · split at hfile
    · cases hfile
      exact ⟨by decide, by decide⟩
    · cases hfile

/-- The run succeeds and leaves all of the files stale that it may leave stale. -/
theorem plain_run (c : Config) : ∃ final, imaEvmSignRootfs c plainTools plainRootfs = .done final ∧
    ∀ path ∈ c.leftStale, StaleAt final path := by
  obtain ⟨installed, hinstall, hclean, hpolicy⟩ := plain_installPolicy c [] clean_signedRootfs
  obtain ⟨first, hfirst, hsignatures, hkeep, hima⟩ :=
    plain_writeSignatures "security.ima".toList c.imaFileSignaturesFile
      fun path file hfile => (hclean path file hfile).2
  obtain ⟨second, hsecond, -, hkeep', hevm⟩ :=
    plain_writeSignatures "security.evm".toList c.evmFileSignaturesFile hsignatures
  refine ⟨second, ?_, ?_⟩
  · have hfstab : fixFstab c plainTools plainRootfs = .done plainRootfs := rfl
    have hparam : evmctlParam (plainTools.elfClass libc plainRootfs) = some [] := by decide
    have hlibc :
        (signedRootfs libc).any (fun file => file.signature = some file.content) = true := by
      decide
    have hwith : signWith c plainTools [] plainRootfs = .done second := by
      unfold signWith
      refine inOrder_cons_eq_done.mpr ⟨signedRootfs, rfl, ?_⟩
      refine inOrder_cons_eq_done.mpr ⟨signedRootfs, if_pos hlibc, ?_⟩
      refine inOrder_cons_eq_done.mpr ⟨signedRootfs, if_pos hlibc, ?_⟩
      refine inOrder_cons_eq_done.mpr ⟨installed, hinstall, ?_⟩
      refine inOrder_cons_eq_done.mpr ⟨first, hfirst, ?_⟩
      exact inOrder_cons_eq_done.mpr ⟨second, hsecond, rfl⟩
    refine andThen_eq_done.mpr ⟨plainRootfs, hfstab, ?_⟩
    rw [hparam]
    exact hwith
  · rintro path (hpath | hpath | hpath)
    · exact hevm path hpath
    · exact hkeep' path (hima path hpath)
    · exact hkeep' path (hkeep path (hpolicy path hpath))

/-- A file without a matching signature is not covered. -/
theorem StaleAt.not_covered {rootfs : Rootfs} {path : Path} (h : StaleAt rootfs path) :
    ¬ Covered plainTools rootfs := by
  intro hcovered
  obtain ⟨file, hfile, hsignature⟩ := h
  obtain ⟨signature, hsome, hverifies⟩ := hcovered path file (Set.notMem_empty path) hfile
  exact hsignature (by rw [hsome, of_decide_eq_true hverifies])

/-! ## The condition -/

/-- Everything that is written after the root file system was signed is signed again: the policy
where it is installed, and there are no lists. -/
def Config.ResignsLast (c : Config) : Prop :=
  (c.imaEvmPolicy = none ∨ c.sysconfdir = etc) ∧ c.imaFileSignaturesFile = none ∧
    c.evmFileSignaturesFile = none

/-- Then nothing is left stale. -/
theorem leftStale_eq_empty_iff (c : Config) : c.leftStale = ∅ ↔ c.ResignsLast := by
  have hlist : ∀ list : Option Path, {path | list = some path} = (∅ : Set Path) ↔ list = none := by
    intro list
    rw [Set.eq_empty_iff_forall_notMem, Option.eq_none_iff_forall_ne_some]
    rfl
  have hpolicy : c.stalePolicy = ∅ ↔ c.imaEvmPolicy = none ∨ c.sysconfdir = etc := by
    have hsame : c.policyFile = signedPolicy ↔ c.sysconfdir = etc := List.append_left_inj imaPolicy
    rw [Set.eq_empty_iff_forall_notMem]
    constructor
    · intro h
      by_contra hnone
      obtain ⟨hsome, hdirectory⟩ := not_or.mp hnone
      exact h c.policyFile ⟨hsome, rfl, fun heq => hdirectory (hsame.mp heq)⟩
    · rintro h path ⟨hsome, rfl, hne⟩
      rcases h with hnone | hdirectory
      · exact hsome hnone
      · exact hne (hsame.mpr hdirectory)
  rw [Config.leftStale, Set.union_empty_iff, Set.union_empty_iff, hlist, hlist, hpolicy,
    Config.ResignsLast]
  tauto

/-- After any number of runs, with any configurations and tools and whatever their statuses, a
successful run of a configuration leaves every file with a matching signature if and only if the
configuration signs again all that it writes last. -/
theorem signing_covers_iff (c : Config) :
    (∀ (earlier : List (Config × Tools)) (tools : Tools) (rootfs final : Rootfs),
      imaEvmSignRootfs c tools
          (afterRuns (earlier.map fun run => imaEvmSignRootfs run.1 run.2) rootfs) = .done final →
        Covered tools final) ↔
      c.ResignsLast := by
  rw [← leftStale_eq_empty_iff]
  constructor
  · intro h
    obtain ⟨final, hrun, hstale⟩ := plain_run c
    refine Set.eq_empty_iff_forall_notMem.mpr fun path hpath => ?_
    exact (hstale path hpath).not_covered (h [] plainTools plainRootfs final hrun)
  · intro h earlier tools rootfs final hrun
    have hspec := imaEvmSignRootfs_spec c _ final trivial hrun
    rwa [h] at hspec

/-- No policy, and one list of signatures. -/
def listConfig : Config where
  sysconfdir := etc
  imaEvmPrivkey := "privkey_ima.pem".toList
  imaEvmX509 := "x509_ima.der".toList
  imaEvmRootfsIversion := []
  imaEvmPolicy := none
  imaFileSignaturesFile := some (etc ++ ["ima-signatures".toList])
  evmFileSignaturesFile := none

/-- The list itself is left without a signature. -/
theorem list_left_unsigned : ∃ final, imaEvmSignRootfs listConfig plainTools
    (afterRuns [] plainRootfs) = .done final ∧ ¬ Covered plainTools final := by
  obtain ⟨final, hrun, hstale⟩ := plain_run listConfig
  exact ⟨final, hrun, (hstale _ (Or.inr (Or.inl rfl))).not_covered⟩

end MetaSecurity.Signing
