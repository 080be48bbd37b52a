import MetaSecurity.Ima.Faithful

/-!
# The policy is loaded completely, or `fatal` is called

`AllOrFatal` is what a boot may rely on: the kernel sees the rules of the file up to the first
one it rejects, and the module ends without `fatal` exactly when all of them were accepted. The
status of the loader is that of the last command of its loop, which for a comment is the
framework's `debug`; `all_or_fatal_iff` gives the exact condition on the file and on the statuses
of `debug` and `sleep` under which that does not matter.
-/

namespace MetaSecurity.Ima

open Library Shell

/-- The run submits texts for the rules, one for each and in their order, until the first
rejection, and ends without calling `fatal` exactly when the kernel accepted all of them. -/
def AllOrFatal (kernel : Decision Text) (rules : List (List Text)) (run : Run) : Prop :=
  ∃ texts : List Text, texts.map ruleWords = rules ∧
    FailStop kernel texts run.submitted run.fatal.isNone

/-- The last line that `read` delivers leaves the loop with status 0: there is no such line, or
it is empty or a comment and `debug` succeeds, or it is a rule and `sleep` succeeds. -/
def EndsQuietly (sys : Initramfs) (policy : Text) : Prop :=
  ∀ line ∈ (readLines policy).getLast?,
    if quiet (readValue line) then sys.debugStatus = 0 else sys.sleepStatus = 0

/-- The same initramfs with another `echo` and another current directory. -/
def Initramfs.withShell (sys : Initramfs) (echo : Echo) (pathname : PathnameExpansion) :
    Initramfs :=
  { sys with echo := echo, pathname := pathname }

/-- In a loadable file the loop skips exactly the empty lines and the comments. -/
theorem skipped_iff_quiet {policy : Text} (h : Loadable policy) (echo : Echo) {line : List Mark}
    (hline : line ∈ readLines policy) :
    skipped echo (readValue line) = quiet (readValue line) := by
  rcases (rule_lines_delivered h.toDelivered).plain line hline with hquiet | ⟨rule, hmem, rfl⟩
  · rw [skipped_of_quiet echo hquiet, hquiet]
  · obtain ⟨c, cs, htrim, -, hhash⟩ := trim_of_isRule (isRule_of_mem hmem)
    rw [readValue_plain, skipped_of_rule echo (newline_not_mem_rule hmem) (h.unquoted rule hmem)
      (isRule_of_mem hmem) (h.noOption rule hmem), htrim]
    simp [quiet, hhash]

/-- The status of the loop over a loadable file that lost no rule. -/
theorem finalStatus_eq_zero_iff {policy : Text} (h : Loadable policy) (sys : Initramfs) :
    finalStatus sys (readLines policy) 0 = 0 ↔ EndsQuietly sys policy := by
  unfold finalStatus EndsQuietly
  cases hlast : (readLines policy).getLast? with
  | none => simp
  | some line =>
      have hmem : line ∈ readLines policy := List.mem_of_getLast? hlast
      simp only [skipped_iff_quiet h sys.echo hmem, Option.mem_some_iff, forall_eq']
      cases quiet (readValue line) <;> simp

/-- A run with the property has reached its loop. -/
theorem ready_of_all_or_fatal {sys : Initramfs} {rules : List (List Text)} {policy : Text}
    (h : AllOrFatal accepting rules (imaRun sys accepting policy)) : sys.ready = true := by
  cases hready : sys.ready with
  | true => rfl
  | false =>
      obtain ⟨hsubmitted, hfatal⟩ := imaRun_of_not_ready hready accepting policy
      obtain ⟨texts, -, hstop⟩ := h
      rw [hsubmitted, hfatal] at hstop
      rcases hstop.complete with hnil | ⟨before, item, heq, -⟩
      · exact hstop.accepted.mpr ⟨hnil, by simp⟩
      · simp at heq

/-- With a kernel that accepts everything, all texts are written and `fatal` is not called. -/
theorem all_or_fatal_accepting {sys : Initramfs} {rules : List (List Text)} {policy : Text}
    (h : AllOrFatal accepting rules (imaRun sys accepting policy)) :
    (texts sys (readLines policy)).map ruleWords = rules ∧
      finalStatus sys (readLines policy) 0 = 0 := by
  have hready := ready_of_all_or_fatal h
  have haccept : ∀ history text, accepting history text = true := fun _ _ => rfl
  obtain ⟨written, hwords, hstop⟩ := h
  have hsame : (imaRun sys accepting policy).submitted = written := by
    rcases hstop.complete with hsame | ⟨before, item, -, hreject⟩
    · exact hsame
    · simp [accepting] at hreject
  refine ⟨?_, ?_⟩
  · rw [submitted_of_ready hready, submit_accepting haccept] at hsame
    simp only [List.nil_append] at hsame
    rw [hsame, hwords]
  · have hnone := hstop.accepted.mpr ⟨hsame, fun _ _ _ _ => rfl⟩
    exact ((fatal_of_ready hready accepting policy).mp hnone).2

/-- Whatever the kernel decides and whatever shell and directory are used, the policy is loaded
completely or `fatal` is called, exactly when the module reaches its loop, the file is loadable
and its last line leaves the loop with status 0. -/
theorem all_or_fatal_iff (sys : Initramfs) (policy : Text) :
    (∀ echo pathname kernel, AllOrFatal kernel (policyRules policy)
      (imaRun (sys.withShell echo pathname) kernel policy)) ↔
      sys.ready = true ∧ Loadable policy ∧ EndsQuietly sys policy := by
  constructor
  · intro h
    have hload : Loadable policy := loadable_of_words fun pathname =>
      (all_or_fatal_accepting (h Echo.cut pathname accepting)).1
    have hcut := h Echo.cut .literal accepting
    have hready : (sys.withShell Echo.cut .literal).ready = true := ready_of_all_or_fatal hcut
    refine ⟨hready, hload, ?_⟩
    exact (finalStatus_eq_zero_iff hload (sys.withShell Echo.cut .literal)).mp
      (all_or_fatal_accepting hcut).2
  · rintro ⟨hready, hload, hquiet⟩ echo pathname kernel
    have hshell : (sys.withShell echo pathname).ready = true := hready
    have hstatus := (finalStatus_eq_zero_iff hload (sys.withShell echo pathname)).mpr hquiet
    refine ⟨texts (sys.withShell echo pathname) (readLines policy), words_of_loadable _ hload, ?_⟩
    have hfatal : (imaRun (sys.withShell echo pathname) kernel policy).fatal.isNone =
        (submit kernel [] (texts (sys.withShell echo pathname) (readLines policy))).2 := by
      rw [Bool.eq_iff_iff, fatal_of_ready hshell]
      simp [hstatus]
    rw [submitted_of_ready hshell, hfatal]
    exact submit_spec kernel [] _ (by simp)

/-- A file whose last line is a comment, in an initramfs whose `debug` fails: every rule is
accepted and `fatal` is called all the same. -/
theorem comment_at_end_fatal :
    ¬ AllOrFatal accepting (policyRules "measure func=BPRM_CHECK\n# end\n".toList)
      (imaRun { cutSystem .literal with debugStatus := 1 } accepting
        "measure func=BPRM_CHECK\n# end\n".toList) := by
  intro h
  have hstatus := (all_or_fatal_accepting h).2
  revert hstatus
  decide

end MetaSecurity.Ima
