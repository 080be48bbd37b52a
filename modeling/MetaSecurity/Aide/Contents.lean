import MetaSecurity.Aide.Database
import Mathlib.Data.List.Nodup

/-!
# What the installed database contains

The database of a build is made with the rules of all builds before it. `database_exact` gives the
condition under which it still is the database of the build's own root file system: the rules of
the earlier builds leave the selection as it is, and the build's own rules select below
`IMAGE_ROOTFS` what the rules on the target select, and nothing elsewhere.
-/

namespace MetaSecurity.Aide

open Library Shell

variable (aide : Program) (echo : Text → Text)

/-- The database has exactly one entry for each file of the build's own root file system that the
target's `aide.conf` selects, named by its path on the target, and no other. -/
structure Exact (b : Build) (lines : List Text) : Prop where
  once : (lines.map entryName).Nodup
  covers : ∀ p, p ∈ lines.map entryName ↔
    p ∈ b.ownFiles ∧ aide.selects (targetConf echo b.lists) p = true
  own : ∀ line ∈ lines, ∃ p ∈ b.ownFiles,
    line = p ++ ' ' :: aide.attributes (b.imageRootfs ++ p)

/-- The build's own rules: a rule with `IMAGE_ROOTFS` before it matches the files below that
directory as the rule on the target matches their paths there, and no other file is selected. -/
structure Build.Fits (b : Build) : Prop where
  inside : ∀ directive ∈ b.lists.directives, ∀ p ∈ b.ownFiles,
    aide.positive (ruleLine echo b.imageRootfs directive) (b.imageRootfs ++ p) =
        aide.positive (ruleLine echo [] directive) p ∧
      aide.negative (ruleLine echo b.imageRootfs directive) (b.imageRootfs ++ p) =
        aide.negative (ruleLine echo [] directive) p
  outside : ∀ file ∈ b.hostFiles, below b.imageRootfs file = none →
    aide.selects (b.nativeRules echo) file = false

/-- The rules of the earlier builds make no difference for the files that exist. -/
def Build.UndisturbedBy (earlier : List Build) (b : Build) : Prop :=
  ∀ file ∈ b.hostFiles, Undisturbed aide.positive aide.negative
    (earlier.flatMap fun other => other.nativeRules echo) (b.nativeRules echo) file

/-! ## Files and their paths on the target -/

/-- A file below the directory is the directory and an absolute path. -/
theorem below_eq_some {directory file p : Text} :
    below directory file = some p ↔ file = directory ++ p ∧ p.head? = some '/' := by
  unfold below
  constructor
  · intro h
    split at h
    · rename_i hcondition
      obtain ⟨hstart, hslash⟩ := Bool.and_eq_true_iff.mp hcondition
      obtain ⟨rest, rfl⟩ := List.isPrefixOf_iff_prefix.mp hstart
      rw [List.drop_left] at h hslash
      cases h
      exact ⟨rfl, of_decide_eq_true hslash⟩
    · cases h
  · rintro ⟨rfl, hslash⟩
    simp [hslash]

/-- Own files have different paths. -/
theorem nodup_ownFiles (b : Build) : b.ownFiles.Nodup := by
  refine List.Nodup.filterMap (fun file other p hfile hother => ?_) b.distinct
  rw [(below_eq_some.mp hfile).1, (below_eq_some.mp hother).1]

/-- An own file exists on the build host. -/
theorem mem_hostFiles_of_mem_ownFiles {b : Build} {p : Text} (h : p ∈ b.ownFiles) :
    b.imageRootfs ++ p ∈ b.hostFiles := by
  obtain ⟨file, hfile, hbelow⟩ := List.mem_filterMap.mp h
  rw [← (below_eq_some.mp hbelow).1]
  exact hfile

/-- The path of an entry is read back. -/
theorem entryName_append {p : Text} (h : ' ' ∉ p) (attributes : Text) :
    entryName (p ++ ' ' :: attributes) = p := by
  have hall : ∀ c ∈ p, decide (c ≠ ' ') = true :=
    fun c hc => decide_eq_true fun heq => h (heq ▸ hc)
  rw [entryName, List.takeWhile_append_of_pos hall, List.takeWhile_cons_of_neg (by decide),
    List.append_nil]

/-- Filtering and translating the items that have an image is filtering and translating the
images. -/
theorem map_filter_filterMap {α β γ : Type*} {f : α → Option β} {keep : α → Bool}
    {keepImage : β → Bool} {translate : α → γ} {translateImage : β → γ} {xs : List α}
    (hnone : ∀ x ∈ xs, f x = none → keep x = false)
    (hsome : ∀ x ∈ xs, ∀ y, f x = some y →
      keep x = keepImage y ∧ translate x = translateImage y) :
    (xs.filter keep).map translate = ((xs.filterMap f).filter keepImage).map translateImage := by
  induction xs with
  | nil => rfl
  | cons x xs ih =>
      have hrest := ih (fun y hy => hnone y (List.mem_cons_of_mem _ hy))
        (fun y hy => hsome y (List.mem_cons_of_mem _ hy))
      cases himage : f x with
      | none =>
          have hdropped := hnone x List.mem_cons_self himage
          rw [List.filterMap_cons_none himage, List.filter_cons_of_neg (by simp [hdropped]), hrest]
      | some y =>
          obtain ⟨hkeep, htranslate⟩ := hsome x List.mem_cons_self y himage
          rw [List.filterMap_cons_some himage]
          cases hkept : keepImage y with
          | true =>
              rw [List.filter_cons_of_pos (by rw [hkeep, hkept]), List.filter_cons_of_pos hkept,
                List.map_cons, List.map_cons, hrest, htranslate]
          | false =>
              rw [List.filter_cons_of_neg (by simp [hkeep, hkept]),
                List.filter_cons_of_neg (by simp [hkept]), hrest]

/-! ## The selection -/

variable {aide echo} {b : Build}

/-- The build's own rules select its own files as the target's configuration does. -/
theorem Build.Fits.selects_own (h : b.Fits aide echo) {p : Text} (hp : p ∈ b.ownFiles) :
    aide.selects (b.nativeRules echo) (b.imageRootfs ++ p) =
      aide.selects (targetConf echo b.lists) p := by
  rw [targetConf, selects_baseConf_append]
  exact selected_map_eq fun directive hdirective => h.inside directive hdirective p hp

/-- The entries of the database after the directory was taken away. -/
theorem stripped_entries (hfits : b.Fits aide echo) {conf : List Text}
    (hconf : ∀ file ∈ b.hostFiles,
      aide.selects conf file = aide.selects (b.nativeRules echo) file) :
    (aide.init conf b.hostFiles).map (deleteFirst b.imageRootfs) =
      (b.ownFiles.filter (aide.selects (targetConf echo b.lists))).map fun p =>
        p ++ ' ' :: aide.attributes (b.imageRootfs ++ p) := by
  rw [Program.init, List.map_map]
  refine map_filter_filterMap (fun file hfile hnone => ?_) fun file hfile p hp => ?_
  · rw [hconf file hfile]
    exact hfits.outside file hfile hnone
  · have hown : p ∈ b.ownFiles := List.mem_filterMap.mpr ⟨file, hfile, hp⟩
    have hpath := (below_eq_some.mp hp).1
    constructor
    · rw [hconf file hfile, hpath, hfits.selects_own hown]
    · rw [Function.comp_apply, hpath, Program.entry, List.append_assoc, deleteFirst_append]

/-- Such a list of entries is exact. -/
theorem exact_entries (b : Build) : Exact aide echo b
    ((b.ownFiles.filter (aide.selects (targetConf echo b.lists))).map fun p =>
      p ++ ' ' :: aide.attributes (b.imageRootfs ++ p)) := by
  have hnames : ((b.ownFiles.filter (aide.selects (targetConf echo b.lists))).map fun p =>
      p ++ ' ' :: aide.attributes (b.imageRootfs ++ p)).map entryName =
        b.ownFiles.filter (aide.selects (targetConf echo b.lists)) := by
    rw [List.map_map]
    refine (List.map_congr_left fun p hp => ?_).trans (List.map_id _)
    have hfile := mem_hostFiles_of_mem_ownFiles (List.mem_of_mem_filter hp)
    have hblank : ' ' ∉ p := fun hmem =>
      b.encoded _ hfile (List.mem_append_right b.imageRootfs hmem)
    exact entryName_append hblank _
  refine ⟨?_, fun p => ?_, fun line hline => ?_⟩
  · rw [hnames]
    exact (nodup_ownFiles b).filter _
  · rw [hnames, List.mem_filter]
  · obtain ⟨p, hp, rfl⟩ := List.mem_map.mp hline
    exact ⟨p, List.mem_of_mem_filter hp, rfl⟩

/-- After any builds, however they ended, a build that succeeds installs an exact database if the
rules of those builds do not disturb it and its own rules fit. -/
theorem database_exact (stagingAideDir : Text) (earlier : List (Build × Faults)) {initial : World}
    (hinitial : initial.conf = nativeConf stagingAideDir) {faults : Faults} {final : World}
    (hdone : aideInitDb aide echo b faults
      (afterRuns (earlier.map fun run => aideInitDb aide echo run.1 run.2) initial) = .done final)
    (hearlier : b.UndisturbedBy aide echo (earlier.map Prod.fst)) (hfits : b.Fits aide echo) :
    ∃ lines, final.installed b.imageRootfs = some lines ∧ Exact aide echo b lines := by
  have hinstalled := installed_aideInitDb hdone
  have hconf : ∀ file ∈ b.hostFiles,
      aide.selects ((afterRuns (earlier.map fun run => aideInitDb aide echo run.1 run.2)
        initial).conf ++ b.nativeRules echo) file = aide.selects (b.nativeRules echo) file := by
    intro file hfile
    have hundisturbed := hearlier file hfile
    rw [List.flatMap_map] at hundisturbed
    rw [conf_afterRuns, hinitial, nativeConf, List.append_assoc, selects_baseConf_append]
    exact selected_append_eq_iff.mpr hundisturbed
  rw [stripped_entries hfits hconf] at hinstalled
  exact ⟨_, hinstalled, exact_entries b⟩

/-! ## When the condition holds -/

/-- The same image again, with the same lists: its rules are there already. -/
theorem undisturbedBy_of_same {earlier : List Build}
    (h : ∀ other ∈ earlier, other.imageRootfs = b.imageRootfs ∧ other.lists = b.lists) :
    b.UndisturbedBy aide echo earlier := by
  intro file _
  refine .of_subset fun line hline => ?_
  obtain ⟨other, hother, hrule⟩ := List.mem_flatMap.mp hline
  rwa [Build.nativeRules, (h other hother).1, (h other hother).2] at hrule

/-- Other images whose rules match none of the files that exist now. -/
theorem undisturbedBy_of_unmatched {earlier : List Build}
    (h : ∀ other ∈ earlier, ∀ file ∈ b.hostFiles, ∀ line ∈ other.nativeRules echo,
      aide.positive line file = false ∧ aide.negative line file = false) :
    b.UndisturbedBy aide echo earlier := by
  intro file hfile
  have hline : ∀ line ∈ earlier.flatMap fun other => other.nativeRules echo,
      aide.positive line file = false ∧ aide.negative line file = false := by
    intro line hmem
    obtain ⟨other, hother, hrule⟩ := List.mem_flatMap.mp hmem
    exact h other hother file hfile line hrule
  refine .of_unmatched ?_ ?_
  · exact List.any_eq_false.mpr fun line hmem => by simp [(hline line hmem).1]
  · exact List.any_eq_false.mpr fun line hmem => by simp [(hline line hmem).2]

/-- The rule on a line that was appended for a directory to include. -/
theorem ruleOf_include {path : Text} (hslash : path.head? = some '/')
    (hblank : ∀ c ∈ path, isIfs c = false) :
    ruleOf (path ++ " NORMAL".toList) = some (.select path) := by
  have hall : ∀ c ∈ path, (!isIfs c) = true := fun c hc => by rw [hblank c hc]; rfl
  have htake : (path ++ " NORMAL".toList).takeWhile (fun c => !isIfs c) = path := by
    rw [List.takeWhile_append_of_pos hall]
    exact List.append_nil path
  cases path with
  | nil => cases hslash
  | cons c rest =>
      cases hslash
      exact congrArg (fun regex => some (Rule.select regex)) htake

/-- The rule on a line that was appended for a directory to skip. -/
theorem ruleOf_skip {path : Text} (hblank : ∀ c ∈ path, isIfs c = false) :
    ruleOf ('!' :: path) = some (.negate path) := by
  have hall : ∀ c ∈ path, (!isIfs c) = true := fun c hc => by rw [hblank c hc]; rfl
  exact congrArg (fun regex => some (Rule.negate regex)) (List.takeWhile_eq_self_iff.mpr hall)

/-- No character of the directory is a blank. -/
theorem isIfs_of_mem_imageRootfs {c : Char} (h : c ∈ b.imageRootfs) : isIfs c = false := by
  have hplain := List.all_eq_true.mp b.plain c h
  cases hblank : isIfs c with
  | false => rfl
  | true =>
      simp only [isIfs, Bool.or_eq_true, decide_eq_true_eq] at hblank
      rcases hblank with (rfl | rfl) | rfl <;> exact absurd hplain (by decide)

/-- The word of a directive. -/
def Directive.dir : Directive → Text
  | .includeDir dir => dir
  | .skipDir dir => dir

/-- The directive selects what it matches. -/
def Directive.isInclude : Directive → Bool
  | .includeDir _ => true
  | .skipDir _ => false

/-- What the line of a directive matches, when the path on it is absolute and has no blanks. -/
theorem matches_ruleLine (aide : Program) (hecho : ∀ t, echo t = t) (directory file : Text)
    {directive : Directive} (hslash : (directory ++ directive.dir).head? = some '/')
    (hblank : ∀ c ∈ directory ++ directive.dir, isIfs c = false) :
    aide.positive (ruleLine echo directory directive) file =
        (directive.isInclude && aide.isMatch (directory ++ directive.dir) file) ∧
      aide.negative (ruleLine echo directory directive) file =
        (!directive.isInclude && aide.isMatch (directory ++ directive.dir) file) := by
  cases directive with
  | includeDir dir =>
      have hrule : ruleOf (ruleLine echo directory (.includeDir dir)) =
          some (.select (directory ++ dir)) := by
        rw [ruleLine, hecho]
        exact ruleOf_include hslash hblank
      rw [Program.positive, Program.negative, hrule]
      exact ⟨rfl, rfl⟩
  | skipDir dir =>
      have hrule : ruleOf (ruleLine echo directory (.skipDir dir)) =
          some (.negate (directory ++ dir)) := by
        rw [ruleLine, hecho]
        exact ruleOf_skip hblank
      rw [Program.positive, Program.negative, hrule]
      exact ⟨rfl, rfl⟩

/-- The word is one of the lists'. -/
theorem mem_dirs_of_mem_directives {lists : Lists} {directive : Directive}
    (h : directive ∈ lists.directives) :
    directive.dir ∈ lists.aideIncludeDirs ++ lists.aideSkipDirs := by
  rcases List.mem_append.mp h with h | h
  · obtain ⟨dir, hdir, rfl⟩ := List.mem_map.mp h
    exact List.mem_append_left _ hdir
  · obtain ⟨dir, hdir, rfl⟩ := List.mem_map.mp h
    exact List.mem_append_right _ hdir

/-- Rules fit when they are absolute paths or expressions without blanks that `echo` prints as they
are, and with the directory before them match what they match below that directory. -/
theorem fits_of_prefix (hroot : b.imageRootfs.head? = some '/') (hecho : ∀ t, echo t = t)
    (hdirs : ∀ dir ∈ b.lists.aideIncludeDirs ++ b.lists.aideSkipDirs,
      dir.head? = some '/' ∧ ∀ c ∈ dir, isIfs c = false)
    (hmatch : ∀ dir ∈ b.lists.aideIncludeDirs ++ b.lists.aideSkipDirs, ∀ file ∈ b.hostFiles,
      (aide.isMatch (b.imageRootfs ++ dir) file = true ↔
        ∃ p, below b.imageRootfs file = some p ∧ aide.isMatch dir p = true)) :
    b.Fits aide echo := by
  have hnative : ∀ dir ∈ b.lists.aideIncludeDirs ++ b.lists.aideSkipDirs,
      (b.imageRootfs ++ dir).head? = some '/' ∧
        ∀ c ∈ b.imageRootfs ++ dir, isIfs c = false := by
    intro dir hdir
    refine ⟨by rw [List.head?_append, hroot, Option.some_or], fun c hc => ?_⟩
    rcases List.mem_append.mp hc with hc | hc
    · exact isIfs_of_mem_imageRootfs hc
    · exact (hdirs dir hdir).2 c hc
  have hown : ∀ dir ∈ b.lists.aideIncludeDirs ++ b.lists.aideSkipDirs, ∀ p ∈ b.ownFiles,
      aide.isMatch (b.imageRootfs ++ dir) (b.imageRootfs ++ p) = aide.isMatch dir p := by
    intro dir hdir p hp
    obtain ⟨file, hfile, hbelow⟩ := List.mem_filterMap.mp hp
    rw [← (below_eq_some.mp hbelow).1, Bool.eq_iff_iff, hmatch dir hdir file hfile, hbelow]
    simp
  refine ⟨fun directive hdirective p hp => ?_, fun file hfile hnone => ?_⟩
  · have hdir := mem_dirs_of_mem_directives hdirective
    obtain ⟨hslash, hblank⟩ := hnative directive.dir hdir
    obtain ⟨hslash', hblank'⟩ := hdirs directive.dir hdir
    obtain ⟨hpositive, hnegative⟩ :=
      matches_ruleLine aide hecho b.imageRootfs (b.imageRootfs ++ p) hslash hblank
    obtain ⟨hpositive', hnegative'⟩ := matches_ruleLine aide hecho [] p hslash' hblank'
    rw [hpositive, hpositive', hnegative, hnegative', hown directive.dir hdir p hp]
    exact ⟨rfl, rfl⟩
  · have hunmatched : matchedBy aide.positive (b.nativeRules echo) file = false := by
      refine List.any_eq_false.mpr fun line hline hmatched => ?_
      obtain ⟨directive, hdirective, rfl⟩ := List.mem_map.mp hline
      have hdir := mem_dirs_of_mem_directives hdirective
      obtain ⟨hslash, hblank⟩ := hnative directive.dir hdir
      rw [(matches_ruleLine aide hecho b.imageRootfs file hslash hblank).1] at hmatched
      obtain ⟨p, hp, -⟩ := (hmatch directive.dir hdir file hfile).mp
        (Bool.and_eq_true_iff.mp hmatched).2
      rw [hnone] at hp
      cases hp
    rw [Program.selects, selected, hunmatched, Bool.false_and]

/-! ## Two images -/

/-- Nothing fails for other reasons. -/
def noFaults : Faults := fun _ _ => none

/-- Then a build succeeds whenever the database of the last build is packed. -/
theorem aideInitDb_succeeds (aide : Program) (echo : Text → Text) (b : Build) {w : World}
    (h : w.databases.unpacked = none) :
    ∃ final, aideInitDb aide echo b noFaults w = .done final ∧
      final.databases.unpacked = none := by
  obtain ⟨conf, ⟨unpacked, packed⟩, installed⟩ := w
  cases h
  refine ⟨_, andThen_eq_done.mpr ⟨_, append_lines _ _, rfl⟩, rfl⟩

/-- An expression matches the paths that start with it, and a file's attributes are not looked
at. -/
def literalAide : Program where
  isMatch regex file := regex.isPrefixOf file
  attributes _ := "0".toList

/-- A directory before an absolute path. -/
theorem literalAide_isMatch {directory dir : Text} (hslash : dir.head? = some '/') (file : Text) :
    literalAide.isMatch (directory ++ dir) file = true ↔
      ∃ p, below directory file = some p ∧ literalAide.isMatch dir p = true := by
  constructor
  · intro h
    obtain ⟨rest, rfl⟩ := List.isPrefixOf_iff_prefix.mp h
    refine ⟨dir ++ rest, below_eq_some.mpr ⟨List.append_assoc .., ?_⟩, ?_⟩
    · rw [List.head?_append, hslash, Option.some_or]
    · exact List.isPrefixOf_iff_prefix.mpr (List.prefix_append dir rest)
  · rintro ⟨p, hp, hmatched⟩
    obtain ⟨rest, rfl⟩ := List.isPrefixOf_iff_prefix.mp hmatched
    rw [(below_eq_some.mp hp).1, ← List.append_assoc]
    exact List.isPrefixOf_iff_prefix.mpr (List.prefix_append ..)

/-- A directory to include and one to skip. -/
def exampleLists : Lists where
  aideIncludeDirs := ["/lib".toList]
  aideSkipDirs := ["/lib/modules".toList]

/-- An image with three files; the other image's library exists too. -/
def firstImage : Build where
  imageRootfs := "/work/a/rootfs".toList
  lists := exampleLists
  hostFiles := ["/work/a/rootfs/lib/x".toList, "/work/a/rootfs/lib/modules/m".toList,
    "/work/a/rootfs/bin/sh".toList, "/work/b/rootfs/lib/y".toList]
  plain := by decide
  distinct := by decide
  encoded := by decide

/-- The other image. -/
def secondImage : Build where
  imageRootfs := "/work/b/rootfs".toList
  lists := exampleLists
  hostFiles := ["/work/a/rootfs/lib/x".toList, "/work/b/rootfs/lib/y".toList]
  plain := by decide
  distinct := by decide
  encoded := by decide

/-- The staging directory after the installation. -/
def freshWorld : World where
  conf := nativeConf "/staging".toList
  databases := ⟨none, none⟩
  installed := fun _ => none

/-- The same image twice. -/
theorem database_exact_again : ∃ final,
    aideInitDb literalAide id firstImage noFaults
        (afterRuns [aideInitDb literalAide id firstImage noFaults] freshWorld) = .done final ∧
      ∃ lines, final.installed firstImage.imageRootfs = some lines ∧
        Exact literalAide id firstImage lines := by
  obtain ⟨first, hfirst, hunpacked⟩ :=
    aideInitDb_succeeds literalAide id firstImage (w := freshWorld) rfl
  have hagain : afterRuns [aideInitDb literalAide id firstImage noFaults] freshWorld = first := by
    rw [afterRuns, List.foldl_cons, List.foldl_nil, hfirst]
    rfl
  obtain ⟨final, hfinal, -⟩ := aideInitDb_succeeds literalAide id firstImage hunpacked
  rw [← hagain] at hfinal
  refine ⟨final, hfinal, ?_⟩
  have hdirs : ∀ dir ∈ exampleLists.aideIncludeDirs ++ exampleLists.aideSkipDirs,
      dir.head? = some '/' ∧ ∀ c ∈ dir, isIfs c = false := by
    have hall : ∀ dir ∈ exampleLists.aideIncludeDirs ++ exampleLists.aideSkipDirs,
        dir.head? = some '/' ∧ (dir.all fun c => !isIfs c) = true := by decide
    intro dir hdir
    exact ⟨(hall dir hdir).1, by simpa using (hall dir hdir).2⟩
  have hsame : firstImage.UndisturbedBy literalAide id [firstImage] :=
    undisturbedBy_of_same fun other hother => by
      rw [List.mem_singleton.mp hother]
      exact ⟨rfl, rfl⟩
  have hfits : firstImage.Fits literalAide id := fits_of_prefix rfl (fun _ => rfl) hdirs
    fun dir hdir file _ => literalAide_isMatch (hdirs dir hdir).1 file
  exact database_exact "/staging".toList [(firstImage, noFaults)] rfl hfinal hsame hfits

/-- The second image's database has an entry for the first image's library. -/
theorem other_image_recorded : ∃ final,
    aideInitDb literalAide id secondImage noFaults
        (afterRuns [aideInitDb literalAide id firstImage noFaults] freshWorld) = .done final ∧
      ∀ lines, final.installed secondImage.imageRootfs = some lines →
        ¬ Exact literalAide id secondImage lines := by
  obtain ⟨first, hfirst, hunpacked⟩ :=
    aideInitDb_succeeds literalAide id firstImage (w := freshWorld) rfl
  have hstart : afterRuns [aideInitDb literalAide id firstImage noFaults] freshWorld = first := by
    rw [afterRuns, List.foldl_cons, List.foldl_nil, hfirst]
    rfl
  obtain ⟨final, hfinal, -⟩ := aideInitDb_succeeds literalAide id secondImage hunpacked
  rw [hstart]
  refine ⟨final, hfinal, fun lines hlines hexact => ?_⟩
  have hconf : first.conf = nativeConf "/staging".toList ++ firstImage.nativeRules id := by
    have h := conf_aideInitDb literalAide id firstImage noFaults freshWorld
    rwa [hfirst] at h
  rw [installed_aideInitDb hfinal, hconf, Option.some.injEq] at hlines
  have hentry : "/work/a/rootfs/lib/x".toList ∈ lines.map entryName := by
    rw [← hlines]
    decide
  exact absurd ((hexact.covers _).mp hentry).1 (by decide)

end MetaSecurity.Aide
