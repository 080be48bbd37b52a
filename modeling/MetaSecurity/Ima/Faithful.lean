import MetaSecurity.Ima.Loading

/-!
# Which policy files are loaded faithfully

`Loadable` is a condition on the content of a policy file. `policy_loading_faithful_iff` says
that it is exactly the condition under which the kernel receives the rules of the file, whatever
`echo` the shell has and whatever the current directory contains. The files that fail it lose a
rule that lacks its newline, lose a rule to a comment that ends in a backslash, or have a word
changed by the backslash handling of `read`, by pathname expansion or by an option of `echo`.
-/

namespace MetaSecurity.Ima

open Library Shell

/-- The rules are delivered one by one, no rule starts with a word that `echo` takes as an option,
and no word of a rule is a pattern for file names. -/
structure Loadable (policy : Text) : Prop extends Delivered policy where
  noOption : ∀ line ∈ ruleLines policy, optionFirst (fields isIfs line) = false
  noPattern : ∀ line ∈ ruleLines policy, ∀ word ∈ fields isIfs line, isPattern word = false

theorem isRule_of_mem {policy line : Text} (h : line ∈ ruleLines policy) : isRule line = true :=
  (List.mem_filter.mp h).2

theorem newline_not_mem_rule {policy line : Text} (h : line ∈ ruleLines policy) : '\n' ∉ line :=
  not_mem_of_mem_allRecords (List.mem_filter.mp h).1

/-- One iteration on a delivered rule writes its expanded words. -/
theorem action_of_rule (sys : Initramfs) {line : Text} (hnl : '\n' ∉ line) (hslash : '\\' ∉ line)
    (hrule : isRule line = true) (hopt : optionFirst (fields isIfs line) = false) :
    action sys (line.map fun c => (c, false)) =
      some (sys.echo.output (expand sys.pathname line)) := by
  rw [action, readValue_plain, skipped_of_rule sys.echo hnl hslash hrule hopt, ruleText, expand,
    fields_trim]
  rfl

/-- The texts written for a delivered file are its rules, expanded and printed. -/
theorem texts_of_settled (sys : Initramfs) {policy : Text} (h : Delivered policy)
    (hopt : ∀ line ∈ ruleLines policy, optionFirst (fields isIfs line) = false) :
    texts sys (readLines policy) =
      ((ruleLines policy).map fun line => sys.echo.output (expand sys.pathname line)).filter
        fun text => !text.isEmpty := by
  obtain ⟨hrules, hplain⟩ := rule_lines_delivered h
  have haction : ∀ line ∈ readLines policy, action sys line =
      (ruleOf line).map fun rule => sys.echo.output (expand sys.pathname rule) := by
    intro line hline
    rcases hplain line hline with hquiet | ⟨rule, hmem, rfl⟩
    · simp [action, ruleOf, skipped_of_quiet sys.echo hquiet, hquiet]
    · rw [action_of_rule sys (newline_not_mem_rule hmem) (h.unquoted rule hmem)
        (isRule_of_mem hmem) (hopt rule hmem), ruleOf_rule (isRule_of_mem hmem)]
      rfl
  rw [texts, List.filterMap_congr haction, ← hrules, List.map_filterMap]

/-- A rule of a loadable file is written as its words. -/
theorem output_of_loadable (echo : Echo) (pathname : PathnameExpansion) {policy line : Text}
    (h : Loadable policy) (hline : line ∈ ruleLines policy) :
    echo.output (expand pathname line) = joinWords (fields isIfs line) ++ ['\n'] := by
  have hslash : ∀ word ∈ fields isIfs line, '\\' ∉ word := fun word hword hmem =>
    h.unquoted line hline (mem_of_mem_fields hword hmem).1
  rw [expand_of_no_pattern pathname (h.noPattern line hline),
    echo.plain _ (h.noOption line hline) hslash]

/-- The texts written for a loadable file. -/
theorem texts_of_loadable (sys : Initramfs) {policy : Text} (h : Loadable policy) :
    texts sys (readLines policy) =
      (ruleLines policy).map fun line => joinWords (fields isIfs line) ++ ['\n'] := by
  have hout : (ruleLines policy).map (fun line => sys.echo.output (expand sys.pathname line)) =
      (ruleLines policy).map fun line => joinWords (fields isIfs line) ++ ['\n'] :=
    List.map_congr_left fun line hline => output_of_loadable sys.echo sys.pathname h hline
  rw [texts_of_settled sys h.toDelivered h.noOption, hout]
  exact List.filter_eq_self.mpr (by simp)

/-- The words of the texts written for a loadable file are the rules of the file. -/
theorem words_of_loadable {policy : Text} (sys : Initramfs) (h : Loadable policy) :
    (texts sys (readLines policy)).map ruleWords = policyRules policy := by
  rw [texts_of_loadable sys h, List.map_map, policyRules]
  refine List.map_congr_left fun line _ => ?_
  exact fields_joinWords (fun word hword => ne_nil_of_mem_fields hword)
    fun word hword c hc => (mem_of_mem_fields hword hc).2

/-! ## Files that are not loadable -/

/-- An initramfs in which everything works, with the taciturn `echo`. -/
def cutSystem (pathname : PathnameExpansion) : Initramfs where
  securityfsMounted := true
  mountSucceeds := true
  hasIma := true
  echo := Echo.cut
  pathname := pathname
  debugStatus := 0
  sleepStatus := 0

/-- With the taciturn `echo` no backslash is ever written. -/
theorem backslash_not_mem_texts (pathname : PathnameExpansion) {lines : List (List Mark)}
    {text : Text} (h : text ∈ texts (cutSystem pathname) lines) : '\\' ∉ text := by
  simp only [texts, List.mem_filter, List.mem_filterMap, action] at h
  obtain ⟨⟨line, -, hline⟩, -⟩ := h
  split at hline
  · simp at hline
  · rw [← Option.some.inj hline]
    exact Echo.not_mem_cut _

/-- An option of `echo` in front of a rule makes the taciturn `echo` write nothing. -/
theorem action_of_option {line : Text} (hopt : optionFirst (fields isIfs line) = true) :
    (action (cutSystem .literal) (line.map fun c => (c, false))).getD [] = [] := by
  have hexpand : expand .literal (trim isIfs line) = fields isIfs line := by
    rw [expand, fields_trim]
    simp [PathnameExpansion.literal]
  simp only [action, readValue_plain]
  split
  · rfl
  · simp [cutSystem, ruleText, hexpand, Echo.cut, hopt]

/-- One iteration writes at most one text, and none if it writes no bytes. -/
theorem length_texts_cons (sys : Initramfs) (line : List Mark) (lines : List (List Mark)) :
    (texts sys (line :: lines)).length ≤ (texts sys lines).length + 1 ∧
      ((action sys line).getD [] = [] → texts sys (line :: lines) = texts sys lines) := by
  rw [texts_cons]
  cases haction : action sys line with
  | none => simp
  | some text => cases text <;> simp

theorem texts_cons_of_quiet (sys : Initramfs) {line : List Mark}
    (hquiet : quiet (readValue line) = true) (lines : List (List Mark)) :
    texts sys (line :: lines) = texts sys lines :=
  (length_texts_cons sys line lines).2 (by simp [action, skipped_of_quiet sys.echo hquiet])

/-- The count of the texts that are written for a file whose reading starts at `current`: at most
as many as the file has rules, and if as many are written then the file delivers its rules, none of
them starts with an option, and no rule is joined to what was read before. -/
structure Counted (policy : Text) (current : List Mark) : Prop where
  le : (texts (cutSystem .literal) (readFrom false current policy)).length ≤
    (ruleLines policy).length
  full : (texts (cutSystem .literal) (readFrom false current policy)).length =
      (ruleLines policy).length →
    Delivered policy ∧ (∀ line ∈ ruleLines policy, optionFirst (fields isIfs line) = false) ∧
      (current ≠ [] → ∀ next ∈ (records '\n' policy).head?, isRule next = false)

/-- A last line without its newline: nothing is written for it. -/
theorem counted_remainder {line : Text} (hnl : '\n' ∉ line)
    (hslash : ∀ rule ∈ ruleLines line, '\\' ∉ rule) (current : List Mark) :
    Counted line current := by
  constructor
  · rw [readFrom_remainder hnl]
    simp [texts]
  · rw [readFrom_remainder hnl, ruleLines_remainder hnl]
    intro heq
    have hrule : isRule line = false := by
      cases hrule : isRule line with
      | false => rfl
      | true => simp [texts, hrule] at heq
    refine ⟨⟨?_, ?_, hslash⟩, ?_, ?_⟩ <;>
      simp [remainder_of_not_mem hnl, records_of_not_mem hnl, hrule]

section

variable {line rest : Text} {current : List Mark} (hnl : '\n' ∉ line)

include hnl

/-- A rule at the start of a logical line: one text, unless it starts with an option. -/
theorem counted_rule (hrule : isRule line = true) (hslash : '\\' ∉ line) (h : Counted rest []) :
    Counted (line ++ '\n' :: rest) [] := by
  have hrules : ruleLines (line ++ '\n' :: rest) = line :: ruleLines rest := by
    simp [ruleLines_record hnl, hrule]
  obtain ⟨hone, hnone⟩ := length_texts_cons (cutSystem .literal)
    (line.map fun c => (c, false)) (readFrom false [] rest)
  have hread : readFrom false [] (line ++ '\n' :: rest) =
      (line.map fun c => (c, false)) :: readFrom false [] rest := by
    simp [readFrom_record hnl, quotesNewline_plain hslash, marks_plain hslash]
  have hle := h.le
  constructor
  · rw [hread, hrules, List.length_cons]
    omega
  · rw [hread, hrules, List.length_cons]
    intro hlen
    have hopt : optionFirst (fields isIfs line) = false := by
      cases hopt : optionFirst (fields isIfs line) with
      | false => rfl
      | true =>
          -- nothing is written for this line, so the rest would need one text too many
          rw [hnone (action_of_option hopt)] at hlen
          omega
    obtain ⟨hdelivered, hoption, -⟩ := h.full (by omega)
    refine ⟨hdelivered.record hnl (fun _ _ _ => quotesNewline_plain hslash) fun _ => hslash, ?_,
      fun hne => absurd rfl hne⟩
    simpa [hopt] using hoption

/-- A rule that is joined to a comment is lost. -/
theorem counted_rule_joined (hcurrent : Swallows current.reverse) (hrule : isRule line = true)
    (hslash : '\\' ∉ line) (h : Counted rest []) : Counted (line ++ '\n' :: rest) current := by
  have hrules : ruleLines (line ++ '\n' :: rest) = line :: ruleLines rest := by
    simp [ruleLines_record hnl, hrule]
  have hread : texts (cutSystem .literal) (readFrom false current (line ++ '\n' :: rest)) =
      texts (cutSystem .literal) (readFrom false [] rest) := by
    rw [readFrom_record hnl, quotesNewline_plain hslash, if_neg (by simp)]
    exact texts_cons_of_quiet _ (hcurrent _) _
  have hle := h.le
  constructor
  · rw [hread, hrules, List.length_cons]
    omega
  · rw [hread, hrules, List.length_cons]
    intro hlen
    omega

/-- A line that is no rule and completes a logical line: nothing is written for it. -/
theorem counted_quiet (hcurrent : Resting current) (hrule : isRule line = false)
    (hquotes : quotesNewline false line = false) (h : Counted rest []) :
    Counted (line ++ '\n' :: rest) current := by
  have hrules : ruleLines (line ++ '\n' :: rest) = ruleLines rest := by
    simp [ruleLines_record hnl, hrule]
  have hread : texts (cutSystem .literal) (readFrom false current (line ++ '\n' :: rest)) =
      texts (cutSystem .literal) (readFrom false [] rest) := by
    rw [readFrom_record hnl, hquotes, if_neg (by simp)]
    exact texts_cons_of_quiet _ (hcurrent.quiet hrule) _
  constructor
  · rw [hread, hrules]
    exact h.le
  · rw [hread, hrules]
    intro hlen
    obtain ⟨hdelivered, hoption, -⟩ := h.full hlen
    exact ⟨hdelivered.record hnl (fun _ _ _ => hquotes) (by simp [hrule]), hoption,
      by simp [records_append_cons hnl, hrule]⟩

/-- A line that is no rule and quotes its newline: the reading goes on in it. -/
theorem counted_joined (hcurrent : Resting current) (hrule : isRule line = false)
    (hquotes : quotesNewline false line = true)
    (h : Counted rest ((marks false line).reverse ++ current)) :
    Counted (line ++ '\n' :: rest) current := by
  have hrules : ruleLines (line ++ '\n' :: rest) = ruleLines rest := by
    simp [ruleLines_record hnl, hrule]
  have hread : readFrom false current (line ++ '\n' :: rest) =
      readFrom false ((marks false line).reverse ++ current) rest := by
    rw [readFrom_record hnl, hquotes, if_pos rfl]
  have hjoined := hcurrent.swallows hrule hquotes
  constructor
  · rw [hread, hrules]
    exact h.le
  · rw [hread, hrules]
    intro hlen
    obtain ⟨hdelivered, hoption, hhead⟩ := h.full hlen
    have hnot := hhead fun hnil => hjoined.ne_nil (by simp [hnil])
    refine ⟨hdelivered.record hnl (fun next hnext hr => ?_) (by simp [hrule]), hoption, ?_⟩
    · simp [hnot next hnext] at hr
    · simp [records_append_cons hnl, hrule]

end

/-- The count of the texts for a file none of whose rules contains a backslash. -/
theorem counted (policy : Text) (hslash : ∀ line ∈ ruleLines policy, '\\' ∉ line)
    (current : List Mark) (hcurrent : Resting current) : Counted policy current := by
  induction policy using recordsInduction '\n' generalizing current with
  | remainder line hnl => exact counted_remainder hnl hslash current
  | record line rest hnl ih =>
      have hrest : ∀ other ∈ ruleLines rest, '\\' ∉ other := by
        intro other hother
        refine hslash other ?_
        rw [ruleLines_record hnl]
        split
        · exact List.mem_cons_of_mem _ hother
        · exact hother
      -- the induction is over lines; what is carried over a newline is in `current`
      have hfresh := ih hrest [] (Or.inl rfl)
      cases hrule : isRule line with
      | true =>
          have hline : '\\' ∉ line := hslash line (by simp [ruleLines_record hnl, hrule])
          rcases hcurrent with rfl | hcurrent
          · exact counted_rule hnl hrule hline hfresh
          · exact counted_rule_joined hnl hcurrent hrule hline hfresh
      | false =>
          cases hquotes : quotesNewline false line with
          | true =>
              have hjoined := hcurrent.swallows hrule hquotes
              exact counted_joined hnl hcurrent hrule hquotes (ih hrest _ (Or.inr hjoined))
          | false => exact counted_quiet hnl hcurrent hrule hquotes hfresh

/-- In a directory where every pattern matches the name `x`, the taciturn `echo` writes each rule
with its patterns replaced by `x`. -/
theorem words_of_matching {policy : Text} (h : Delivered policy)
    (hopt : ∀ line ∈ ruleLines policy, optionFirst (fields isIfs line) = false) :
    (texts (cutSystem (.matching ['x'])) (readLines policy)).map ruleWords =
      (ruleLines policy).map (expand (.matching ['x'])) := by
  have hword : ∀ line ∈ ruleLines policy, ∀ word ∈ expand (.matching ['x']) line,
      word ≠ [] ∧ ∀ c ∈ word, isIfs c = false ∧ c ≠ '\\' := by
    intro line hline word hword
    rw [expand_matching] at hword
    obtain ⟨field, hfield, rfl⟩ := List.mem_map.mp hword
    split
    · simp [isIfs]
    · refine ⟨ne_nil_of_mem_fields hfield, fun c hc => ?_⟩
      obtain ⟨hmem, hifs⟩ := mem_of_mem_fields hfield hc
      exact ⟨hifs, fun heq => h.unquoted line hline (heq ▸ hmem)⟩
  have hfirst : ∀ line ∈ ruleLines policy, optionFirst (expand (.matching ['x']) line) = false := by
    intro line hline
    have hoption := hopt line hline
    rw [expand_matching]
    cases hfields : fields isIfs line with
    | nil => rfl
    | cons word words =>
        rw [hfields] at hoption
        simp only [List.map_cons, optionFirst] at hoption ⊢
        split
        · rfl
        · exact hoption
  have hout : ∀ line ∈ ruleLines policy, Echo.cut.output (expand (.matching ['x']) line) =
      joinWords (expand (.matching ['x']) line) ++ ['\n'] := fun line hline =>
    Echo.cut.plain _ (hfirst line hline) fun word hmem hslash =>
      ((hword line hline word hmem).2 _ hslash).2 rfl
  have htexts : texts (cutSystem (.matching ['x'])) (readLines policy) =
      (ruleLines policy).map fun line => joinWords (expand (.matching ['x']) line) ++ ['\n'] := by
    rw [texts_of_settled _ h hopt, show (ruleLines policy).map (fun line =>
      (cutSystem (.matching ['x'])).echo.output
        (expand (cutSystem (.matching ['x'])).pathname line)) = _ from List.map_congr_left hout]
    exact List.filter_eq_self.mpr (by simp)
  rw [htexts, List.map_map]
  exact List.map_congr_left fun line hline =>
    fields_joinWords (fun word hmem => (hword line hline word hmem).1)
      fun word hmem c hc => ((hword line hline word hmem).2 c hc).1

/-- If the taciturn `echo` writes the rules in every directory, the file is loadable. -/
theorem loadable_of_words {policy : Text}
    (h : ∀ pathname, (texts (cutSystem pathname) (readLines policy)).map ruleWords =
      policyRules policy) : Loadable policy := by
  have hslash : ∀ line ∈ ruleLines policy, '\\' ∉ line := by
    intro line hline hmem
    obtain ⟨word, hword, hin⟩ := exists_mem_fields (p := isIfs) hmem (by simp [isIfs])
    have hrule : fields isIfs line ∈ policyRules policy := List.mem_map.mpr ⟨line, hline, rfl⟩
    rw [← h .literal] at hrule
    obtain ⟨text, htext, heq⟩ := List.mem_map.mp hrule
    rw [← heq] at hword
    exact backslash_not_mem_texts .literal htext (mem_of_mem_fields hword hin).1
  have hlen : (texts (cutSystem .literal) (readLines policy)).length =
      (ruleLines policy).length := by
    simpa [policyRules] using congrArg List.length (h .literal)
  obtain ⟨hdelivered, hoption, -⟩ := (counted policy hslash [] (Or.inl rfl)).full hlen
  refine ⟨hdelivered, hoption, fun line hline word hword => ?_⟩
  -- in a directory with one name every pattern would become that name
  have hmatching := h (.matching ['x'])
  rw [words_of_matching hdelivered hoption, policyRules, List.map_inj_left] at hmatching
  have hsame := hmatching line hline
  rw [expand_matching, ← List.map_id (fields isIfs line), List.map_map, List.map_inj_left] at hsame
  have hstays := hsame word hword
  cases hpattern : isPattern word with
  | false => rfl
  | true =>
      have hname : word = ['x'] := by simpa [hpattern] using hstays.symm
      rw [hname] at hpattern
      exact absurd hpattern (by decide)

/-- The kernel accepts every write. -/
def accepting : Decision Text := fun _ _ => true

/-- The rules that the kernel receives when it accepts every write are the rules of the policy
file, in their order and with their words, for every shell and every directory, exactly for the
loadable files. -/
theorem policy_loading_faithful_iff (policy : Text) :
    (∀ sys : Initramfs, sys.ready = true →
      (imaRun sys accepting policy).submitted.map ruleWords = policyRules policy) ↔
      Loadable policy := by
  have hsubmitted : ∀ sys : Initramfs, sys.ready = true →
      (imaRun sys accepting policy).submitted = texts sys (readLines policy) := by
    intro sys hready
    have haccept : ∀ history text, accepting history text = true := fun _ _ => rfl
    rw [submitted_of_ready hready, submit_accepting haccept]
    rfl
  constructor
  · intro h
    refine loadable_of_words fun pathname => ?_
    rw [← hsubmitted (cutSystem pathname) rfl]
    exact h (cutSystem pathname) rfl
  · intro h sys hready
    rw [hsubmitted sys hready, words_of_loadable sys h]

/-- A rule without a newline at its end is not loaded. -/
theorem unterminated_rule_lost :
    ¬ (imaRun (cutSystem .literal) accepting "measure func=BPRM_CHECK".toList).submitted.map
        ruleWords = policyRules "measure func=BPRM_CHECK".toList := by
  decide

end MetaSecurity.Ima
