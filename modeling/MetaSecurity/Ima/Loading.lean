import Mathlib.Data.List.Chain
import MetaSecurity.Ima.Policy

/-!
# What the policy loader does with a file

The loop of `ima_run` seen through the lines of the policy file. `load_policy_spec` says what the
loop does with the lines that `read` delivers: it submits the texts of the rules among them, one
by one, until the kernel rejects one. `Delivered` collects what a file must satisfy for its rules
to be these lines, and `rule_lines_delivered` says that then they are.
-/

namespace MetaSecurity.Ima

open Library Shell

variable {sys : Initramfs} {kernel : Decision Text}

/-! ## The loop over the delivered lines -/

/-- The text that one iteration writes; `none` when it only logs the line. -/
def action (sys : Initramfs) (line : List Mark) : Option Text :=
  if skipped sys.echo (readValue line) then none
  else some (ruleText sys.echo sys.pathname (readValue line))

/-- The texts that reach the kernel when it accepts all of them. -/
def texts (sys : Initramfs) (lines : List (List Mark)) : List Text :=
  (lines.filterMap (action sys)).filter fun text => !text.isEmpty

/-- The status of the loop after `lines` when nothing was rejected. -/
def finalStatus (sys : Initramfs) (lines : List (List Mark)) (status : Nat) : Nat :=
  match lines.getLast? with
  | none => status
  | some line => if skipped sys.echo (readValue line) then sys.debugStatus else sys.sleepStatus

theorem texts_cons (sys : Initramfs) (line : List Mark) (lines : List (List Mark)) :
    texts sys (line :: lines) = (match action sys line with
      | none => []
      | some text => if text.isEmpty then [] else [text]) ++ texts sys lines := by
  cases haction : action sys line with
  | none => simp [texts, haction]
  | some text => cases text <;> simp [texts, haction]

theorem finalStatus_cons (sys : Initramfs) (line : List Mark) (lines : List (List Mark))
    (status : Nat) :
    finalStatus sys (line :: lines) status =
      finalStatus sys lines
        (if skipped sys.echo (readValue line) then sys.debugStatus else sys.sleepStatus) := by
  cases lines with
  | nil => rfl
  | cons next lines =>
      obtain ⟨last, hlast⟩ : ∃ last, (next :: lines).getLast? = some last :=
        ⟨_, List.getLast?_eq_some_getLast (List.cons_ne_nil next lines)⟩
      simp only [finalStatus, List.getLast?_cons_cons, hlast]

/-- The loop submits the texts of its lines until the first rejection, calls `fatal` exactly on
a rejection, and otherwise ends with the status of its last iteration. -/
theorem load_policy_spec (sys : Initramfs) (kernel : Decision Text) (lines : List (List Mark))
    (submitted : List Text) (status : Nat) :
    let loaded := loadPolicy sys kernel lines submitted status
    let outcome := submit kernel submitted (texts sys lines)
    loaded.submitted = outcome.1 ∧ (loaded.fatal = none ↔ outcome.2 = true) ∧
      (outcome.2 = true → loaded.status = finalStatus sys lines status) := by
  induction lines generalizing submitted status with
  | nil => simp [loadPolicy, texts, submit, finalStatus]
  | cons line lines ih =>
      rw [texts_cons, finalStatus_cons]
      cases hskip : skipped sys.echo (readValue line) with
      | true => simpa [loadPolicy, hskip, action] using ih submitted sys.debugStatus
      | false =>
          generalize htext : ruleText sys.echo sys.pathname (readValue line) = text
          cases text with
          | nil =>
              -- no byte is written, so the kernel is not asked
              simpa [loadPolicy, hskip, action, htext, accepts, written] using
                ih submitted sys.sleepStatus
          | cons c cs =>
              cases hkernel : kernel submitted (c :: cs) with
              | true =>
                  simpa [loadPolicy, hskip, action, htext, accepts, written, hkernel, submit]
                    using ih (submitted ++ [c :: cs]) sys.sleepStatus
              | false =>
                  simp [loadPolicy, hskip, action, htext, accepts, written, hkernel, submit]

theorem imaRun_of_ready {sys : Initramfs} (hready : sys.ready = true) (kernel : Decision Text)
    (policy : Text) :
    imaRun sys kernel policy = reported (loadPolicy sys kernel (readLines policy) [] 0) := by
  simp only [Initramfs.ready, Bool.and_eq_true, Bool.or_eq_true] at hready
  obtain ⟨hmount, hima⟩ := hready
  have hnot : (!sys.securityfsMounted && !sys.mountSucceeds) = false := by
    rcases hmount with h | h <;> simp [h]
  simp only [imaRun, hnot, hima]
  rfl

/-- A run that does not reach the loop calls `fatal` and writes nothing. -/
theorem imaRun_of_not_ready {sys : Initramfs} (hready : sys.ready = false) (kernel : Decision Text)
    (policy : Text) :
    (imaRun sys kernel policy).submitted = [] ∧
      (imaRun sys kernel policy).fatal.isNone = false := by
  cases hmount : !sys.securityfsMounted && !sys.mountSucceeds with
  | true =>
      simp [imaRun, hmount]
  | false =>
      have hima : sys.hasIma = false := by
        revert hready hmount
        cases h : sys.hasIma <;> cases hm : sys.securityfsMounted <;>
          cases hs : sys.mountSucceeds <;> simp [Initramfs.ready, h, hm, hs]
      simp [imaRun, hmount, hima]

/-- When the loop is reached, the module writes what the loop submits. -/
theorem submitted_of_ready {sys : Initramfs} (hready : sys.ready = true) (kernel : Decision Text)
    (policy : Text) :
    (imaRun sys kernel policy).submitted =
      (submit kernel [] (texts sys (readLines policy))).1 := by
  rw [imaRun_of_ready hready, ← (load_policy_spec sys kernel (readLines policy) [] 0).1]
  cases h : (loadPolicy sys kernel (readLines policy) [] 0).fatal <;> simp [reported, h]

/-- When the loop is reached, `fatal` is not called exactly when every text was accepted and the
last command of the loop succeeded. -/
theorem fatal_of_ready {sys : Initramfs} (hready : sys.ready = true) (kernel : Decision Text)
    (policy : Text) :
    (imaRun sys kernel policy).fatal.isNone = true ↔
      (submit kernel [] (texts sys (readLines policy))).2 = true ∧
        finalStatus sys (readLines policy) 0 = 0 := by
  obtain ⟨-, hfatal, hstatus⟩ := load_policy_spec sys kernel (readLines policy) [] 0
  rw [imaRun_of_ready hready, ← hfatal]
  cases hloop : (loadPolicy sys kernel (readLines policy) [] 0).fatal with
  | some message => simp [reported, hloop]
  | none =>
      rw [← hstatus (hfatal.mp hloop)]
      by_cases h0 : (loadPolicy sys kernel (readLines policy) [] 0).status = 0 <;>
        simp [reported, hloop, h0]

/-! ## Lines that are no rules -/

/-- `read` delivered an empty line or a comment. -/
def quiet (i : Text) : Bool :=
  i.isEmpty || i.head? = some '#'

/-- Every `echo` lets `grep` recognise an empty line and a comment. -/
theorem skipped_of_quiet (echo : Echo) {i : Text} (h : quiet i = true) : skipped echo i = true := by
  cases i with
  | nil =>
      have hout : echo.output [[]] = ['\n'] := echo.plain [[]] rfl (by simp)
      have hrecords : allRecords '\n' ['\n'] = [[]] := by decide
      simp [skipped, hout, hrecords]
  | cons c cs =>
      have hc : c = '#' := by simpa [quiet] using h
      subst hc
      have hopt : optionFirst ['#' :: cs] = false := rfl
      obtain ⟨rest, hout⟩ := echo.literal ['#' :: cs] hopt
      have hstart : ∃ tail, echo.output ['#' :: cs] = '#' :: tail := by
        refine ⟨cs.takeWhile (· ≠ '\\') ++ rest, ?_⟩
        rw [← hout]
        simp [joinWords]
      obtain ⟨tail, htail⟩ := hstart
      obtain ⟨first, others, hrecords⟩ :=
        allRecords_cons_of_ne '\n' (show '#' ≠ '\n' by decide) tail
      simp [skipped, htail, hrecords]

/-- The first character of a rule that is not white space. -/
theorem trim_of_isRule {line : Text} (hrule : isRule line = true) :
    ∃ c cs, trim isIfs line = c :: cs ∧ isIfs c = false ∧ c ≠ '#' := by
  cases hdrop : line.dropWhile isIfs with
  | nil => simp [isRule, hdrop] at hrule
  | cons c cs =>
      have hc : isIfs c = false := by
        have hhead := List.head?_dropWhile_not isIfs line
        simpa [hdrop] using hhead
      refine ⟨c, cs.rdropWhile isIfs, ?_, hc, by simpa [isRule, hdrop] using hrule⟩
      have htrim := trim_cons_of_not_sep hc cs
      rwa [trim, List.dropWhile_cons_of_neg (by simp [hc]), ← hdrop] at htrim

/-- A text that looks like an option of `echo` is a single field. -/
theorem fields_of_echoOption {t : Text} (h : echoOption t = true) : fields isIfs t = [t] := by
  cases t with
  | nil => simp [echoOption] at h
  | cons c cs =>
      simp only [echoOption, List.head?_cons, Option.some.injEq, List.tail_cons, Bool.and_eq_true,
        decide_eq_true_eq, List.all_eq_true, Bool.or_eq_true] at h
      obtain ⟨⟨rfl, -⟩, hletters⟩ := h
      refine fields_eq_singleton (by simp) fun x hx => ?_
      rcases List.mem_cons.mp hx with rfl | hx
      · rfl
      · rcases hletters x hx with (rfl | rfl) | rfl <;> rfl

/-- A rule without backslashes and without an option of `echo` in front is recognised as one. -/
theorem skipped_of_rule (echo : Echo) {line : Text} (hnl : '\n' ∉ line) (hslash : '\\' ∉ line)
    (hrule : isRule line = true) (hopt : optionFirst (fields isIfs line) = false) :
    skipped echo (trim isIfs line) = false := by
  obtain ⟨c, cs, htrim, hc, hhash⟩ := trim_of_isRule hrule
  have hoption : echoOption (trim isIfs line) = false := by
    cases hecho : echoOption (trim isIfs line) with
    | false => rfl
    | true =>
        rw [← fields_trim, fields_of_echoOption hecho] at hopt
        simp [optionFirst, hecho] at hopt
  have hout : echo.output [trim isIfs line] = trim isIfs line ++ '\n' :: [] := by
    rw [echo.plain [trim isIfs line] hoption
      (by simpa using fun hmem => hslash (mem_of_mem_trim hmem))]
    simp [joinWords]
  have hrecords : allRecords '\n' (echo.output [trim isIfs line]) = [trim isIfs line] := by
    rw [hout, allRecords_append_cons fun hmem => hnl (mem_of_mem_trim hmem), allRecords_nil]
  have hspace : c ≠ ' ' := by
    rintro rfl
    simp [isIfs] at hc
  simp only [skipped, hrecords]
  simp [htrim, hhash, hspace]

/-! ## The rules among the delivered lines -/

/-- The rule that a delivered line stands for, if it stands for one. -/
def ruleOf (line : List Mark) : Option Text :=
  if quiet (readValue line) then none else some (line.map Prod.fst)

/-- Every rule of the file is delivered by `read` as a line of its own: the unterminated last line
is no rule, no line quotes the newline in front of a rule, and no rule contains a backslash. -/
structure Delivered (policy : Text) : Prop where
  ending : isRule (remainder '\n' policy) = false
  unjoined : (records '\n' policy).IsChain fun line next =>
    isRule next = true → quotesNewline false line = false
  unquoted : ∀ line ∈ ruleLines policy, '\\' ∉ line

theorem ruleLines_record {line : Text} (h : '\n' ∉ line) (rest : Text) :
    ruleLines (line ++ '\n' :: rest) =
      if isRule line then line :: ruleLines rest else ruleLines rest := by
  rw [ruleLines, allRecords_append_cons h, List.filter_cons, ruleLines]

theorem ruleLines_remainder {line : Text} (h : '\n' ∉ line) :
    ruleLines line = if isRule line then [line] else [] := by
  cases line with
  | nil => simp [ruleLines, isRule]
  | cons c cs =>
      simp [ruleLines, allRecords, records_of_not_mem h, remainder_of_not_mem h, List.filter_cons]

/-- The rest of a delivered file is delivered, and no rule follows a line that quotes its
newline. -/
theorem Delivered.of_record {line rest : Text} (hnl : '\n' ∉ line)
    (h : Delivered (line ++ '\n' :: rest)) :
    Delivered rest ∧ ∀ next ∈ (records '\n' rest).head?,
      isRule next = true → quotesNewline false line = false := by
  obtain ⟨hending, hunjoined, hunquoted⟩ := h
  rw [remainder_append_cons hnl] at hending
  rw [records_append_cons hnl, List.isChain_cons] at hunjoined
  refine ⟨⟨hending, hunjoined.2, fun line' hline' => hunquoted line' ?_⟩, hunjoined.1⟩
  rw [ruleLines_record hnl]
  split
  · exact List.mem_cons_of_mem _ hline'
  · exact hline'

/-- A line in front of a delivered file that does not join its newline to a rule. -/
theorem Delivered.record {line rest : Text} (hnl : '\n' ∉ line) (h : Delivered rest)
    (hnext : ∀ next ∈ (records '\n' rest).head?,
      isRule next = true → quotesNewline false line = false)
    (hslash : isRule line = true → '\\' ∉ line) : Delivered (line ++ '\n' :: rest) := by
  refine ⟨by rw [remainder_append_cons hnl, h.ending], ?_, ?_⟩
  · rw [records_append_cons hnl, List.isChain_cons]
    exact ⟨hnext, h.unjoined⟩
  · intro other hother
    rw [ruleLines_record hnl] at hother
    split at hother
    · rcases List.mem_cons.mp hother with rfl | hother
      · exact hslash ‹_›
      · exact h.unquoted other hother
    · exact h.unquoted other hother

/-- Whatever is joined to these characters, the logical line is not a rule. -/
def Swallows (front : List Mark) : Prop :=
  ∀ rest, quiet (readValue (front ++ rest)) = true

theorem Swallows.append {front : List Mark} (h : Swallows front) (more : List Mark) :
    Swallows (front ++ more) := by
  intro rest
  rw [List.append_assoc]
  exact h (more ++ rest)

theorem Swallows.ne_nil {front : List Mark} (h : Swallows front) : front ≠ [] := by
  rintro rfl
  simpa [readValue, trim, quiet, isIfs, List.rdropWhile_singleton] using h [('a', false)]

/-- A line that is no rule is blank, or it is a comment and swallows what is joined to it. -/
theorem blank_or_swallows {line : Text} (h : isRule line = false) :
    (∀ c ∈ line, isIfs c = true) ∨ Swallows (marks false line) := by
  cases hdrop : line.dropWhile isIfs with
  | nil => exact Or.inl (List.dropWhile_eq_nil_iff.mp hdrop)
  | cons c cs =>
      have hc : c = '#' := by simpa [isRule, hdrop] using h
      subst hc
      refine Or.inr fun rest => ?_
      have hblank : ∀ x ∈ line.takeWhile isIfs, isIfs x = true := fun x hx =>
        List.mem_takeWhile_imp hx
      have hslash : '\\' ∉ line.takeWhile isIfs := fun hmem => by
        simpa [isIfs] using hblank _ hmem
      have hline : line = line.takeWhile isIfs ++ '#' :: cs := by
        rw [← hdrop, List.takeWhile_append_dropWhile]
      have hmarks : marks false line ++ rest =
          ((line.takeWhile isIfs).map fun c => (c, false)) ++
            ('#', false) :: (marks false cs ++ rest) := by
        conv_lhs => rw [hline, marks_append_plain hslash]
        simp [marks]
      rw [hmarks, readValue, trim_append_cons (by simpa using hblank) (by simp [isIfs])]
      simp [quiet]

/-- A line that is no rule and completes a logical line is delivered as an empty line or a
comment. -/
theorem quiet_of_not_rule {line : Text} (h : isRule line = false) :
    quotesNewline false line = false ∧ quiet (readValue (marks false line)) = true ∨
      Swallows (marks false line) := by
  refine (blank_or_swallows h).imp_left fun hblank => ?_
  have hslash : '\\' ∉ line := fun hmem => by simpa [isIfs] using hblank _ hmem
  refine ⟨quotesNewline_plain hslash, ?_⟩
  rw [marks_plain hslash, readValue_plain, trim_eq_nil hblank]
  rfl

/-- The characters read so far, last one first, are at the start of a logical line or in a comment
that quoted its newline. -/
def Resting (current : List Mark) : Prop :=
  current = [] ∨ Swallows current.reverse

/-- Another line that is no rule, when the logical line is complete with it. -/
theorem Resting.quiet {current : List Mark} {line : Text} (h : Resting current)
    (hrule : isRule line = false) :
    quiet (readValue (current.reverse ++ marks false line)) = true := by
  rcases h with rfl | h
  · rcases quiet_of_not_rule hrule with ⟨-, hquiet⟩ | hswallows
    · simpa using hquiet
    · simpa using hswallows []
  · exact h (marks false line)

/-- Another line that is no rule and quotes its newline. -/
theorem Resting.swallows {current : List Mark} {line : Text} (h : Resting current)
    (hrule : isRule line = false) (hquotes : quotesNewline false line = true) :
    Swallows ((marks false line).reverse ++ current).reverse := by
  rw [List.reverse_append, List.reverse_reverse]
  rcases h with rfl | h
  · rcases quiet_of_not_rule hrule with ⟨hplain, -⟩ | hswallows
    · rw [hquotes] at hplain
      cases hplain
    · simpa using hswallows
  · exact h.append _

/-- A rule without backslashes is delivered as it stands. -/
theorem ruleOf_rule {line : Text} (hrule : isRule line = true) :
    ruleOf (line.map fun c => (c, false)) = some line := by
  obtain ⟨c, cs, htrim, -, hhash⟩ := trim_of_isRule hrule
  simp [ruleOf, readValue_plain, htrim, quiet, hhash, Function.comp_def]

/-- The delivered lines are the rules of the file, and lines that are not rules. -/
structure Settled (policy : Text) (lines : List (List Mark)) : Prop where
  rules : lines.filterMap ruleOf = ruleLines policy
  plain : ∀ line ∈ lines, quiet (readValue line) = true ∨
    ∃ rule ∈ ruleLines policy, line = rule.map fun c => (c, false)

theorem Settled.cons_quiet {policy rest : Text} {line : List Mark} {lines : List (List Mark)}
    (hrules : ruleLines policy = ruleLines rest) (hquiet : quiet (readValue line) = true)
    (h : Settled rest lines) : Settled policy (line :: lines) := by
  refine ⟨by simp [ruleOf, hquiet, h.rules, hrules], fun other hother => ?_⟩
  rw [hrules]
  rcases List.mem_cons.mp hother with rfl | hother
  · exact Or.inl hquiet
  · exact h.plain other hother

theorem Settled.cons_rule {policy rest rule : Text} {lines : List (List Mark)}
    (hrules : ruleLines policy = rule :: ruleLines rest) (hrule : isRule rule = true)
    (h : Settled rest lines) : Settled policy ((rule.map fun c => (c, false)) :: lines) := by
  refine ⟨by simp [ruleOf_rule hrule, h.rules, hrules], fun other hother => ?_⟩
  rw [hrules]
  rcases List.mem_cons.mp hother with rfl | hother
  · exact Or.inr ⟨rule, List.mem_cons_self, rfl⟩
  · exact (h.plain other hother).imp_right fun ⟨rule', hmem, heq⟩ =>
      ⟨rule', List.mem_cons_of_mem _ hmem, heq⟩

/-- Reading a delivered file. When it starts in a comment, the first line is no rule. -/
theorem settled_readFrom (policy : Text) (current : List Mark) (hcurrent : Resting current)
    (hhead : current ≠ [] → ∀ next ∈ (records '\n' policy).head?, isRule next = false)
    (h : Delivered policy) : Settled policy (readFrom false current policy) := by
  induction policy using recordsInduction '\n' generalizing current with
  | remainder line hnl =>
      have hending := h.ending
      rw [remainder_of_not_mem hnl] at hending
      rw [readFrom_remainder hnl]
      exact ⟨by simp [ruleLines_remainder hnl, hending], by simp⟩
  | record line rest hnl ih =>
      obtain ⟨hrest, hnext⟩ := h.of_record hnl
      have hfresh := ih [] (Or.inl rfl) (fun hne => absurd rfl hne) hrest
      rw [readFrom_record hnl]
      cases hrule : isRule line with
      | true =>
          -- a rule: it stands at the start of a logical line and is complete
          have hrules : ruleLines (line ++ '\n' :: rest) = line :: ruleLines rest := by
            simp [ruleLines_record hnl, hrule]
          have hslash : '\\' ∉ line := h.unquoted line (by simp [hrules])
          have hstart : current = [] := by
            by_contra hne
            simpa [records_append_cons hnl, hrule] using hhead hne
          subst hstart
          simp only [quotesNewline_plain hslash, marks_plain hslash, Bool.false_eq_true, if_false,
            List.reverse_nil, List.nil_append]
          exact Settled.cons_rule hrules hrule hfresh
      | false =>
          have hrules : ruleLines (line ++ '\n' :: rest) = ruleLines rest := by
            simp [ruleLines_record hnl, hrule]
          cases hquotes : quotesNewline false line with
          | true =>
              -- the next line is joined to this one, and it is no rule either
              obtain ⟨hlines, hplain⟩ := ih ((marks false line).reverse ++ current)
                (Or.inr (hcurrent.swallows hrule hquotes))
                (fun _ next hmem => by simpa [hquotes] using hnext next hmem) hrest
              rw [if_pos rfl]
              exact ⟨hlines.trans hrules.symm, by simpa [hrules] using hplain⟩
          | false =>
              rw [if_neg (by simp)]
              exact Settled.cons_quiet hrules (hcurrent.quiet hrule) hfresh

/-- `read` delivers exactly the rules of a delivered file, besides lines that are not rules. -/
theorem rule_lines_delivered {policy : Text} (h : Delivered policy) :
    Settled policy (readLines policy) :=
  settled_readFrom policy [] (Or.inl rfl) (fun hne => absurd rfl hne) h

end MetaSecurity.Ima
