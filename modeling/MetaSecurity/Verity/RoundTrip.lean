import MetaSecurity.Verity.Encoding
import MetaSecurity.Verity.Folded

/-!
# From the report to the variables

Any list of lines `KEY:VALUE` goes through `process_verity` into an environment file, and from there
by sourcing into variables. `round_trip_iff` says for which lines every variable gets the value of
its line without white space: for all whose value `echo` does not take for an option, and whose
variable the shell does not keep for itself.
-/

namespace MetaSecurity.Verity

open Library Shell

/-! ## Reports -/

/-- A key: words of letters with single spaces between them. -/
def IsKey (key : Text) : Prop :=
  ∃ words, words ≠ [] ∧ (∀ word ∈ words, word ≠ [] ∧ word.all Char.isAlpha = true) ∧
    key = joinWords words

/-- A character of a value. -/
def isValueChar (c : Char) : Bool :=
  c.isAlphanum || c = '-' || c = ' ' || c = '\t'

/-- The variables that `process_verity` adds itself. -/
def ownVariables : List Text :=
  [Var.dataSize, Var.separateHash, Var.rootUuid, Var.rhashUuid]

/-- A header and lines `KEY:VALUE` whose variables are different from each other and from the ones
that `process_verity` adds. -/
structure WellFormed (header : Text) (lines : List (Text × Text)) : Prop where
  header_line : '\n' ∉ header
  keys : ∀ line ∈ lines, IsKey line.1
  values : ∀ line ∈ lines, ∀ c ∈ line.2, isValueChar c = true
  distinct : (lines.map fun line => variableName line.1).Nodup
  others : ∀ line ∈ lines, variableName line.1 ∉ ownVariables

/-- The output of `veritysetup`: the header, then the lines. -/
def reportText (header : Text) (lines : List (Text × Text)) : Text :=
  header ++ '\n' :: terminate '\n' (lines.map reportLine)

/-! ## What `bc` prints -/

/-- A character of the text that `process_verity` takes for the root hash. -/
def isHashChar (c : Char) : Bool :=
  c.isAlphanum || c = '-' || c = '_' || c = '='

/-- The beginning of a line that is no statement for `bc`, whose names start in lower case. -/
def noStatement : Text := "ROOT_".toList

/-- The `bc` of POSIX prints at most one number, in hexadecimal digits and folded when it is long,
when at most one line of the program is a statement. -/
def PrintsNumber (bc : Text → Option Text) : Prop :=
  ∀ lines operator output, (∀ line ∈ lines, ∀ c ∈ line, isHashChar c = true) →
    (lines.filter fun line => !noStatement.isPrefixOf line).length ≤ 1 → operator ∈ ['/', '%'] →
      bc (halfProgram (['\n'].intercalate lines) operator ++ ['\n']) = some output →
        output = [] ∨ ∃ parts, IsNumber parts ∧ output = fold parts ++ ['\n']

/-! ## The round trip -/

/-- The variables of the lines are bound to what `value` makes of their values, those of the build
to the values of the build, and no others are bound. -/
structure Binds (value : Text → Text) (c : Config) (size : Nat) (lines : List (Text × Text))
    (vars vars' : Variables) : Prop where
  values : ∀ line ∈ lines, vars' (variableName line.1) = value line.2
  dataSize : vars' Var.dataSize = decimal size
  separateHash : vars' Var.separateHash = decimal c.separateHash
  others : ∀ name, name ∉ lines.map (fun line => variableName line.1) →
    name ∉ [Var.dataSize, Var.separateHash] →
    (c.separateHash ≠ 0 → name ∉ [Var.rootUuid, Var.rhashUuid]) → vars' name = vars name

/-- Sourcing the environment file that a successful run leaves behind binds the variables. -/
def RoundTrips (value : Text → Text) (c : Config) (tools : Tools) (sourcing : Sourcing)
    (type : Text) (size : Nat) (header : Text) (lines : List (Text × Text)) : Prop :=
  ∀ staging staging', processVerity c tools type size (tailFromSecond (reportText header lines))
      staging = some staging' →
    ∃ env, staging' (c.envPath c.imageBasename type) = some env ∧
      ∀ vars, ∃ vars', sourcing.source env vars = some vars' ∧
        Binds value c size lines vars vars'

/-! ## Keys and values -/

/-- The upper case of a letter is a letter. -/
theorem isAlpha_toUpper {c : Char} (h : c.isAlpha = true) : c.toUpper.isAlpha = true := by
  have hval : c.toUpper.val.toNat =
      if 97 ≤ c.val.toNat ∧ c.val.toNat ≤ 122 then c.val.toNat - 32 else c.val.toNat := by
    have hshift : ('A'.val - 'a'.val).toNat = 4294967264 := by decide
    have hfirst : 'a'.val.toNat = 97 := by decide
    have hlast : 'z'.val.toNat = 122 := by decide
    unfold Char.toUpper
    split
    · next hlower =>
      simp only [UInt32.le_iff_toNat_le, hfirst, hlast] at hlower
      rw [if_pos hlower, UInt32.toNat_add, hshift]
      omega
    · next hlower =>
      simp only [UInt32.le_iff_toNat_le, hfirst, hlast] at hlower
      rw [if_neg hlower]
  delta Char.isAlpha Char.isUpper Char.isLower at h ⊢
  simp only [Bool.or_eq_true, Bool.and_eq_true, decide_eq_true_eq, UInt32.le_iff_toNat_le,
    ge_iff_le] at h ⊢
  rw [hval]
  simp only [UInt32.reduceToNat, Char.reduceVal] at h ⊢
  split <;> omega

theorem isAlpha_keyChar {c : Char} (h : c.isAlpha = true) : (keyChar c).isAlpha = true := by
  have hupper := isAlpha_toUpper h
  have hne : c.toUpper ≠ ' ' := fun heq => by
    rw [heq] at hupper
    exact absurd hupper (by decide)
  rw [keyChar, if_neg hne]
  exact hupper

/-- A key becomes the name of a variable. -/
theorem IsKey.identifier {key : Text} (h : IsKey key) : isIdentifier (variableName key) = true := by
  obtain ⟨words, hne, hwords, rfl⟩ := h
  have hchars : ∀ c ∈ joinWords words, (keyChar c).isAlphanum = true ∨ keyChar c = '_' := by
    intro c hc
    rcases mem_joinWords hc with rfl | ⟨word, hword, hc⟩
    · exact .inr (by decide)
    · have hletter := List.all_eq_true.mp (hwords word hword).2 c hc
      exact .inl (by simp [Char.isAlphanum, isAlpha_keyChar hletter])
  obtain ⟨word, rest, rfl⟩ := List.exists_cons_of_ne_nil hne
  obtain ⟨hword, hletters⟩ := hwords word List.mem_cons_self
  obtain ⟨first, letters, rfl⟩ := List.exists_cons_of_ne_nil hword
  have hhead : (joinWords ((first :: letters) :: rest)).head? = some first := by
    cases rest <;> simp [joinWords, List.intercalate_cons_cons]
  have hfirst := isAlpha_keyChar (List.all_eq_true.mp hletters first List.mem_cons_self)
  simp only [isIdentifier, variableName, Bool.and_eq_true, List.all_eq_true, List.head?_map, hhead]
  refine ⟨by simp [hfirst], fun d hd => ?_⟩
  obtain ⟨c, hc, rfl⟩ := List.mem_map.mp hd
  simpa using hchars c hc

/-- The characters of a value. -/
theorem valueChar_spec {c : Char} (h : isValueChar c = true) :
    (c ≠ ':' ∧ c ≠ '\n' ∧ c ≠ '\\') ∧ (c ≠ ' ' → c ≠ '\t' → c.isAlphanum = true ∨ c = '-') := by
  refine ⟨⟨?_, ?_, ?_⟩, fun hspace htab => ?_⟩
  · rintro rfl
    exact absurd h (by decide)
  · rintro rfl
    exact absurd h (by decide)
  · rintro rfl
    exact absurd h (by decide)
  · simpa [isValueChar, hspace, htab] using h

/-- The value of a line without blanks. -/
theorem compact_chars {val : Text} (h : ∀ c ∈ val, isValueChar c = true) :
    ∀ c ∈ compact val, c.isAlphanum = true ∨ c = '-' := by
  intro c hc
  obtain ⟨hmem, hblank⟩ := List.mem_filter.mp hc
  simp only [Bool.and_eq_true, decide_eq_true_eq] at hblank
  exact (valueChar_spec (h c hmem)).2 hblank.1 hblank.2

/-! ## The text that is taken for the root hash -/

/-- Lines that end in newlines, without the newlines at the end. -/
theorem intercalate_append (lines : List Text) (line : Text) :
    ['\n'].intercalate (lines ++ [line]) = terminate '\n' lines ++ line := by
  induction lines with
  | nil => simp
  | cons first lines ih =>
      obtain ⟨next, rest, hcons⟩ := List.exists_cons_of_ne_nil
        (List.append_ne_nil_of_right_ne_nil lines (List.cons_ne_nil line []))
      rw [List.cons_append, hcons, List.intercalate_cons_cons, ← hcons, ih]
      simp

/-- A command substitution keeps the lines up to the last one that is not empty. -/
theorem exists_substituted {lines : List Text} (h : ∀ line ∈ lines, '\n' ∉ line) :
    ∃ kept, kept <+: lines ∧ substitution (terminate '\n' lines) = ['\n'].intercalate kept := by
  induction lines using List.reverseRecOn with
  | nil => exact ⟨[], List.prefix_rfl, rfl⟩
  | append_singleton lines line ih =>
      have hterminate : terminate '\n' (lines ++ [line]) =
          terminate '\n' lines ++ line ++ ['\n'] := by simp
      by_cases hnil : line = []
      · obtain ⟨kept, hinit, hkept⟩ := ih fun other hother => h other (by simp [hother])
        refine ⟨kept, hinit.trans (List.prefix_append _ _), ?_⟩
        rw [hterminate, hnil, List.append_nil, substitution,
          List.rdropWhile_concat_pos _ _ _ (by simp)]
        exact hkept
      · refine ⟨lines ++ [line], List.prefix_rfl, ?_⟩
        obtain ⟨front, c, rfl⟩ := List.eq_nil_or_concat' line |>.resolve_left hnil
        have hne : c ≠ '\n' := fun heq => h (front ++ [c]) (by simp) (by simp [heq])
        rw [hterminate, substitution, List.rdropWhile_concat_pos _ _ _ (by simp),
          ← List.append_assoc, List.rdropWhile_concat_neg _ _ _ (by simpa using hne),
          intercalate_append, List.append_assoc]

/-- A line with a longer name than `ROOT_HASH` keeps the beginning of its name. -/
theorem noStatement_of_longer {a : Assignment} (h : isIdentifier a.1 = true)
    (hstart : Var.rootHash.isPrefixOf a.1 = true) (hne : a.1 ≠ Var.rootHash) :
    noStatement.isPrefixOf
      ((deleteFirst "ROOT_HASH=".toList (assignmentLine a)).map upperHex) = true := by
  obtain ⟨rest, hname⟩ := List.isPrefixOf_iff_prefix.mp hstart
  cases rest with
  | nil => exact absurd (hname.symm.trans (List.append_nil _)) hne
  | cons c rest =>
      have hc : c ≠ '=' := (ne_of_mem_identifier h (by simp [← hname])).1
      have hword : "ROOT_HASH=".toList = ['R', 'O', 'O', 'T', '_', 'H', 'A', 'S', 'H', '='] := rfl
      have hroot : Var.rootHash = ['R', 'O', 'O', 'T', '_', 'H', 'A', 'S', 'H'] := rfl
      have hkept : deleteFirst "ROOT_HASH=".toList (assignmentLine a) = ['R', 'O', 'O', 'T', '_'] ++
          deleteFirst "ROOT_HASH=".toList (['H', 'A', 'S', 'H'] ++ c :: (rest ++ '=' :: a.2)) := by
        rw [assignmentLine, ← hname, hroot, hword]
        simp [deleteFirst, List.isPrefixOf, hc.symm]
      rw [hkept, List.map_append, List.isPrefixOf_iff_prefix]
      exact List.prefix_append _ _

/-- The characters of such a line. -/
theorem mem_of_mem_deleteFirst {word t : Text} {c : Char} (h : c ∈ deleteFirst word t) : c ∈ t := by
  induction t with
  | nil => simp [deleteFirst] at h
  | cons d t ih =>
      rw [deleteFirst] at h
      split at h
      · exact List.mem_of_mem_drop h
      · rcases List.mem_cons.mp h with rfl | h
        · exact List.mem_cons_self
        · exact List.mem_cons_of_mem _ (ih h)

/-- The upper case of hexadecimal digits stays in such a line. -/
theorem isHashChar_upperHex {c : Char} (h : isHashChar c = true) :
    isHashChar (upperHex c) = true := by
  unfold upperHex
  split
  · next hdigit =>
    have hlower : c.isLower = true := by
      delta Char.isLower
      simp only [Bool.and_eq_true, decide_eq_true_eq, ge_iff_le]
      exact ⟨hdigit.1, Char.le_trans hdigit.2 (by decide : 'f' ≤ 'z')⟩
    have halpha : c.isAlpha = true := by
      change (c.isUpper || c.isLower) = true
      rw [hlower, Bool.or_true]
    have hletter := isAlpha_toUpper halpha
    simp [isHashChar, Char.isAlphanum, hletter]
  · exact h

/-- The characters of a plain assignment, as `sed` and `tr` leave them. -/
theorem isHashChar_of_mem_assignmentLine {a : Assignment} (hplain : isPlainAssignment a = true)
    (hvalue : ∀ c ∈ a.2, c.isAlphanum = true ∨ c = '-') {word : Text} {c : Char}
    (h : c ∈ (deleteFirst word (assignmentLine a)).map upperHex) : isHashChar c = true := by
  obtain ⟨d, hd, rfl⟩ := List.mem_map.mp h
  refine isHashChar_upperHex ?_
  rcases List.mem_append.mp (mem_of_mem_deleteFirst hd) with hd | hd
  · simp only [isPlainAssignment, isIdentifier, Bool.and_eq_true, List.all_eq_true] at hplain
    have hchar := hplain.1.2 d hd
    simp only [Bool.or_eq_true, decide_eq_true_eq] at hchar
    rcases hchar with hchar | hchar <;> simp [isHashChar, hchar]
  · rcases List.mem_cons.mp hd with rfl | hd
    · decide
    · rcases hvalue d hd with hchar | hchar <;> simp [isHashChar, hchar]

/-- The root hash in a file of assignments to different variables: lines of which at most one is a
statement. -/
theorem rootHashOf_lines {as : List Assignment} (hplain : ∀ a ∈ as, isPlainAssignment a = true)
    (hdistinct : (as.map Prod.fst).Nodup)
    (hvalues : ∀ a ∈ as, ∀ c ∈ a.2, c.isAlphanum = true ∨ c = '-') :
    ∃ lines, rootHashOf (assignmentFile as) = ['\n'].intercalate lines ∧
      (∀ line ∈ lines, ∀ c ∈ line, isHashChar c = true) ∧
      (lines.filter fun line => !noStatement.isPrefixOf line).length ≤ 1 := by
  let text := fun a : Assignment =>
    (deleteFirst "ROOT_HASH=".toList (assignmentLine a)).map upperHex
  let named := as.filter fun a => Var.rootHash.isPrefixOf a.1
  have hname : ∀ a ∈ named, isIdentifier a.1 = true := fun a ha => by
    have hassignment := hplain a (List.mem_filter.mp ha).1
    rw [isPlainAssignment, Bool.and_eq_true] at hassignment
    exact hassignment.1
  have hchars : ∀ line ∈ named.map text, ∀ c ∈ line, isHashChar c = true := by
    intro line hline c hc
    obtain ⟨a, ha, rfl⟩ := List.mem_map.mp hline
    have hmem := (List.mem_filter.mp ha).1
    exact isHashChar_of_mem_assignmentLine (hplain a hmem) (hvalues a hmem) hc
  have hlines : ∀ line ∈ named.map text, '\n' ∉ line := fun line hline hmem =>
    absurd (hchars line hline _ hmem) (by decide)
  obtain ⟨kept, hinit, hkept⟩ := exists_substituted hlines
  refine ⟨kept, (rootHashOf_file hplain).trans hkept,
    fun line hline => hchars line (hinit.subset hline), ?_⟩
  -- Only the line of `ROOT_HASH` itself can be a statement.
  have hsingle : ((named.map text).filter fun line => !noStatement.isPrefixOf line).length ≤ 1 := by
    rw [List.filter_map, List.length_map]
    have hsame : ∀ name ∈ (named.filter fun a => !noStatement.isPrefixOf (text a)).map Prod.fst,
        name = Var.rootHash := by
      intro name hmem
      obtain ⟨a, ha, rfl⟩ := List.mem_map.mp hmem
      obtain ⟨hnamed, hstatement⟩ := List.mem_filter.mp ha
      by_contra hne
      have hstart := noStatement_of_longer (hname a hnamed) (List.mem_filter.mp hnamed).2 hne
      rw [hstart] at hstatement
      cases hstatement
    have hnodup : ((named.filter fun a => !noStatement.isPrefixOf (text a)).map Prod.fst).Nodup :=
      (List.filter_sublist.trans List.filter_sublist).map Prod.fst |>.nodup hdistinct
    rw [List.eq_replicate_of_mem hsame, List.nodup_replicate, List.length_map] at hnodup
    exact hnodup
  exact (hinit.sublist.filter _).length_le.trans hsingle

/-- What is read of the output of `bc`: nothing or a folded number. -/
theorem half_number {tools : Tools} (hbc : PrintsNumber tools.bc) {lines : List Text}
    (hchars : ∀ line ∈ lines, ∀ c ∈ line, isHashChar c = true)
    (hsingle : (lines.filter fun line => !noStatement.isPrefixOf line).length ≤ 1)
    {operator : Char} (hoperator : operator ∈ ['/', '%']) {digits : Text}
    (h : half tools (['\n'].intercalate lines) operator = some digits) :
    digits = [] ∨ ∃ parts, IsNumber parts ∧ digits = fold parts := by
  have hslash : '\\' ∉ ['\n'].intercalate lines := by
    intro hmem
    rcases mem_intercalate_singleton hmem with heq | ⟨line, hline, hmem⟩
    · exact absurd heq (by decide)
    · exact absurd (hchars line hline _ hmem) (by decide)
  rw [half_printed tools hslash hoperator, Option.map_eq_some_iff] at h
  obtain ⟨output, houtput, rfl⟩ := h
  rcases hbc lines operator output hchars hsingle hoperator houtput with rfl | ⟨parts, hparts, rfl⟩
  · exact .inl rfl
  · exact .inr ⟨parts, hparts, substitution_number hparts⟩

/-! ## The environment file -/

section

variable {header : Text} {lines : List (Text × Text)} (hformed : WellFormed header lines)
  (c : Config) (size : Nat) {tools : Tools}
  (hechoed : ∀ line ∈ lines, ∀ c ∈ echoed tools.echo line.2, c.isAlphanum = true ∨ c = '-')

/-- The assignments of both modes. -/
def commonAssignments (echo : Echo) (lines : List (Text × Text)) : List Assignment :=
  lineAssignments echo lines ++
    [(Var.dataSize, decimal size), (Var.separateHash, decimal c.separateHash)]

include hechoed in
/-- The characters of the values. -/
theorem commonAssignments_values :
    ∀ a ∈ commonAssignments c size tools.echo lines, ∀ d ∈ a.2, d.isAlphanum = true ∨ d = '-' := by
  intro a ha d hd
  rcases List.mem_append.mp ha with ha | ha
  · obtain ⟨line, hline, rfl⟩ := List.mem_map.mp ha
    exact hechoed line hline d hd
  · simp only [List.mem_cons, List.not_mem_nil, or_false] at ha
    rcases ha with rfl | rfl <;>
      exact .inl (by simp [Char.isAlphanum, isDigit_of_mem_decimal hd])

include hformed

/-- The names of the variables. -/
theorem commonAssignments_names : ∀ a ∈ commonAssignments c size tools.echo lines,
    isIdentifier a.1 = true := by
  intro a ha
  rcases List.mem_append.mp ha with ha | ha
  · obtain ⟨line, hline, rfl⟩ := List.mem_map.mp ha
    exact (hformed.keys line hline).identifier
  · simp only [List.mem_cons, List.not_mem_nil, or_false] at ha
    rcases ha with rfl | rfl
    · exact (by decide : isIdentifier Var.dataSize = true)
    · exact (by decide : isIdentifier Var.separateHash = true)

include hechoed in
theorem commonAssignments_plain :
    ∀ a ∈ commonAssignments c size tools.echo lines, isPlainAssignment a = true := by
  intro a ha
  rw [isPlainAssignment, commonAssignments_names hformed c size a ha, Bool.true_and,
    List.all_eq_true]
  intro d hd
  rcases commonAssignments_values c size hechoed a ha d hd with hd | rfl
  · simp [isLiteral, isPathChar, hd]
  · decide

/-- The variables are different from each other and from the UUIDs. -/
theorem commonAssignments_distinct :
    ((commonAssignments c size tools.echo lines).map Prod.fst ++
      [Var.rootUuid, Var.rhashUuid]).Nodup := by
  have hnames : (commonAssignments c size tools.echo lines).map Prod.fst ++
      [Var.rootUuid, Var.rhashUuid] =
        lines.map (fun line => variableName line.1) ++ ownVariables := by
    simp [commonAssignments, lineAssignments, ownVariables, Function.comp_def]
  rw [hnames, List.nodup_append]
  refine ⟨hformed.distinct, by decide, ?_⟩
  rintro name hname other hother rfl
  obtain ⟨line, hline, rfl⟩ := List.mem_map.mp hname
  exact hformed.others line hline hother

/-- The environment file before `process_verity` looks at the mode. -/
theorem commonEnvironment_reportText :
    commonEnvironment c tools size (tailFromSecond (reportText header lines)) =
      assignmentFile (commonAssignments c size tools.echo lines) :=
  commonEnvironment_lines c tools size hformed.header_line
    (fun line hline => (hformed.keys line hline).identifier)
    fun line hline d hd => (valueChar_spec (hformed.values line hline d hd)).1

/-- The UUIDs that a run adds to the file: none, or both as folded numbers. -/
def AddedUuids (uuids : List (Text × List Text)) : Prop :=
  if c.separateHash = 0 then uuids = []
  else ∃ root rhash, uuids = [(Var.rootUuid, root), (Var.rhashUuid, rhash)] ∧
    IsNumber root ∧ IsNumber rhash

omit hformed in
/-- `echo` writes a folded UUID as it stands. -/
theorem echo_uuid (hecho : tools.echo.Continues) {name : Text} (hname : isIdentifier name = true)
    {parts : List Text} (h : IsNumber parts) :
    tools.echo.output [name ++ '=' :: fold parts] =
      assignmentLine (name, fold parts) ++ ['\n'] := by
  have hslash : ∀ part ∈ parts, '\\' ∉ part := fun part hpart hmem =>
    (numberChar_spec (h.chars part hpart _ hmem)).2.2.2.2.1 rfl
  simp only [isIdentifier, Bool.and_eq_true, List.all_eq_true] at hname
  have hchar : ∀ d ∈ name ++ ['='], d ≠ '-' ∧ d ≠ '\\' := by
    intro d hd
    rcases List.mem_append.mp hd with hd | hd
    · have hd := hname.2 d hd
      constructor <;> rintro rfl <;> exact absurd hd (by decide)
    · rw [List.mem_singleton.mp hd]
      decide
  have hprinted := hecho (name ++ ['=']) parts
    (fun hhead => (hchar _ (List.mem_of_head? hhead)).1 rfl) (by simp)
    (fun hmem => (hchar _ hmem).2 rfl) hslash
  simpa [assignmentLine] using hprinted

include hechoed in
/-- The environment file of a successful run. -/
theorem environment_of_run (hecho : tools.echo.Continues) (hbc : PrintsNumber tools.bc)
    {type : Text} {staging staging' : Staging}
    (hrun : processVerity c tools type size (tailFromSecond (reportText header lines)) staging =
      some staging') :
    ∃ uuids, AddedUuids c uuids ∧ staging' (c.envPath c.imageBasename type) =
      some (assignmentFile (commonAssignments c size tools.echo lines) ++ foldedFile uuids) := by
  rw [processVerity, commonEnvironment_reportText hformed] at hrun
  by_cases hmode : c.separateHash = 0
  · rw [if_pos hmode, Option.some.injEq] at hrun
    refine ⟨[], by rw [AddedUuids, if_pos hmode], ?_⟩
    rw [← hrun, Function.update_self]
    simp [foldedFile]
  · obtain ⟨texts, hhash, hchars, hsingle⟩ := rootHashOf_lines
      (commonAssignments_plain hformed c size hechoed)
      (List.nodup_append.mp (commonAssignments_distinct hformed c size)).1
      (commonAssignments_values c size hechoed)
    simp only [if_neg hmode, hhash, Option.bind_eq_bind, Option.bind_eq_some_iff,
      Option.some.injEq] at hrun
    obtain ⟨high, hhigh, low, hlow, heq⟩ := hrun
    obtain ⟨root, hroot, hrootUuid⟩ := uuidOf_folded hecho
      (half_number hbc hchars hsingle (by simp) hhigh)
    obtain ⟨rhash, hrhash, hrhashUuid⟩ := uuidOf_folded hecho
      (half_number hbc hchars hsingle (by simp) hlow)
    have hrootLine := echo_uuid hecho (by decide : isIdentifier Var.rootUuid = true) hroot
    have hrhashLine := echo_uuid hecho (by decide : isIdentifier Var.rhashUuid = true) hrhash
    have hrootText : "ROOT_UUID=".toList ++ fold root = Var.rootUuid ++ '=' :: fold root := rfl
    have hrhashText : "RHASH_UUID=".toList ++ fold rhash = Var.rhashUuid ++ '=' :: fold rhash := rfl
    refine ⟨[(Var.rootUuid, root), (Var.rhashUuid, rhash)], ?_, ?_⟩
    · rw [AddedUuids, if_neg hmode]
      exact ⟨root, rhash, rfl, hroot, hrhash⟩
    · rw [← heq, Function.update_of_ne (envPath_ne_wksPath c type), Function.update_self,
        hrootUuid, hrhashUuid, hrootText, hrhashText, hrootLine, hrhashLine]
      simp [foldedFile]

omit hformed in
/-- The assignments of a run, with the parts of the UUIDs joined. -/
theorem AddedUuids.joined {uuids : List (Text × List Text)} (h : AddedUuids c uuids) :
    (∀ a ∈ uuids, isPlainAssignment (Shell.joined a) = true) ∧
      ∀ name ∈ uuids.map Prod.fst, c.separateHash ≠ 0 ∧ name ∈ [Var.rootUuid, Var.rhashUuid] := by
  unfold AddedUuids at h
  split at h
  · subst h
    simp
  · next hmode =>
    obtain ⟨root, rhash, rfl, hroot, hrhash⟩ := h
    have hliteral : ∀ {parts : List Text}, IsNumber parts → parts.flatten.all isLiteral = true := by
      intro parts hparts
      rw [List.all_eq_true]
      intro d hd
      obtain ⟨part, hpart, hd⟩ := List.mem_flatten.mp hd
      exact (numberChar_spec (hparts.chars part hpart d hd)).2.1
    refine ⟨fun a ha => ?_, fun name hname => ⟨hmode, by simpa using hname⟩⟩
    simp only [List.mem_cons, List.not_mem_nil, or_false] at ha
    rcases ha with rfl | rfl <;>
      simp only [Shell.joined, isPlainAssignment, hliteral hroot, hliteral hrhash,
        Bool.and_true] <;>
      decide

omit hformed in
/-- A variable that `process_verity` assigns is one of the lines', or its own. -/
theorem not_reserved (hfree : ∀ line ∈ lines, variableName line.1 ∉ reservedVariables)
    {a : Assignment} (ha : a ∈ commonAssignments c size tools.echo lines) :
    a.1 ∉ reservedVariables := by
  have hown : ∀ name ∈ [Var.dataSize, Var.separateHash], name ∉ reservedVariables := by decide
  rcases List.mem_append.mp ha with ha | ha
  · obtain ⟨line, hline, rfl⟩ := List.mem_map.mp ha
    exact hfree line hline
  · exact hown a.1 (List.mem_map_of_mem (f := Prod.fst) ha)

omit hformed in
/-- The UUIDs are ordinary assignments. -/
theorem AddedUuids.ordinary {uuids : List (Text × List Text)} (h : AddedUuids c uuids) :
    ∀ a ∈ uuids, isOrdinaryAssignment (Shell.joined a) = true := by
  obtain ⟨hplain, hnames⟩ := h.joined
  have hown : ∀ name ∈ [Var.rootUuid, Var.rhashUuid], name ∉ reservedVariables := by decide
  intro a ha
  exact (isOrdinaryAssignment_iff _).mpr
    ⟨hplain a ha, hown a.1 (hnames a.1 (List.mem_map_of_mem ha)).2⟩

include hformed hechoed in
/-- Sourcing the environment file binds the variables to what `echo` printed of the values. -/
theorem binds_echoed (hfree : ∀ line ∈ lines, variableName line.1 ∉ reservedVariables)
    (sourcing : FoldedSourcing) {uuids : List (Text × List Text)}
    (huuids : AddedUuids c uuids) (vars : Variables) :
    ∃ vars', sourcing.source
        (assignmentFile (commonAssignments c size tools.echo lines) ++ foldedFile uuids) vars =
          some vars' ∧
      Binds (echoed tools.echo) c size lines vars vars' := by
  obtain ⟨-, huuidsNames⟩ := huuids.joined
  obtain ⟨hnodup, -, hdisjoint⟩ :=
    List.nodup_append.mp (commonAssignments_distinct hformed c size)
  have hordinary : ∀ a ∈ commonAssignments c size tools.echo lines,
      isOrdinaryAssignment a = true := fun a ha => (isOrdinaryAssignment_iff a).mpr
    ⟨commonAssignments_plain hformed c size hechoed a ha, not_reserved c size hfree ha⟩
  have hsource := sourcing.folded_after hordinary huuids.ordinary vars
  have hnames : (uuids.map Shell.joined).map Prod.fst = uuids.map Prod.fst := by
    simp [Shell.joined, Function.comp_def]
  -- The UUIDs are assigned last, but to other variables.
  have hvalue : ∀ a ∈ commonAssignments c size tools.echo lines,
      assignAll vars (commonAssignments c size tools.echo lines ++ uuids.map Shell.joined) a.1 =
        a.2 := by
    intro a ha
    have hother : a.1 ∉ (uuids.map Shell.joined).map Prod.fst := fun hmem => by
      rw [hnames] at hmem
      exact hdisjoint a.1 (List.mem_map.mpr ⟨a, ha, rfl⟩) a.1 (huuidsNames a.1 hmem).2 rfl
    rw [assignAll_eq, lastValue_append, lastValue_of_not_mem hother, Option.none_or,
      lastValue_of_mem hnodup ha]
    rfl
  refine ⟨_, hsource, fun line hline => ?_, ?_, ?_, fun name hname hown huuid => ?_⟩
  · exact hvalue (variableName line.1, echoed tools.echo line.2)
      (List.mem_append_left _ (List.mem_map.mpr ⟨line, hline, rfl⟩))
  · exact hvalue (Var.dataSize, decimal size) (List.mem_append_right _ (by simp))
  · exact hvalue (Var.separateHash, decimal c.separateHash) (List.mem_append_right _ (by simp))
  · have hcommonName : name ∉ (commonAssignments c size tools.echo lines).map Prod.fst := by
      rw [commonAssignments, List.map_append, List.mem_append, lineAssignments, List.map_map]
      exact fun hmem => hmem.elim hname hown
    have huuidName : name ∉ (uuids.map Shell.joined).map Prod.fst := fun hmem => by
      rw [hnames] at hmem
      obtain ⟨hmode, hmem⟩ := huuidsNames name hmem
      exact huuid hmode hmem
    rw [assignAll_eq, lastValue_append, lastValue_of_not_mem huuidName,
      lastValue_of_not_mem hcommonName]
    rfl

include hformed hechoed in
/-- With any proper `echo` the variables get what it prints of the values. -/
theorem round_trips_echoed (hfree : ∀ line ∈ lines, variableName line.1 ∉ reservedVariables)
    (hecho : tools.echo.Continues) (hbc : PrintsNumber tools.bc) (sourcing : FoldedSourcing)
    (type : Text) :
    RoundTrips (echoed tools.echo) c tools sourcing.toSourcing type size header lines := by
  intro staging staging' hrun
  obtain ⟨uuids, huuids, henv⟩ := environment_of_run hformed c size hechoed hecho hbc hrun
  exact ⟨_, henv, binds_echoed hformed c size hechoed hfree sourcing huuids⟩

end

/-! ## Which values survive -/

/-- Tools whose `echo` prints nothing for options and whose `bc` finds no number. -/
def silentTools : Tools where
  echo := .raw
  pathname := .literal
  bc := fun _ => some []
  installSucceeds := true
  copySucceeds := true

theorem silentTools_printsNumber : PrintsNumber silentTools.bc := by
  intro lines operator output _ _ _ houtput
  exact .inl (Option.some.inj houtput).symm

/-- With these tools every run succeeds. -/
theorem silentTools_run (c : Config) (type : Text) (size : Nat) (input : Text) (staging : Staging) :
    ∃ staging', processVerity c silentTools type size input staging = some staging' := by
  rw [processVerity]
  split
  · exact ⟨_, rfl⟩
  · have hhalf : ∀ hash operator, half silentTools hash operator = some [] := fun _ _ => rfl
    simp only [hhalf, Option.bind_eq_bind, Option.bind_some]
    exact ⟨_, rfl⟩

/-- An option is not printed, though it has characters that are no white space. -/
theorem echoed_option {val : Text} (h : echoOption val = true) :
    echoed silentTools.echo val = [] ∧ compact val ≠ [] := by
  constructor
  · have hprinted : silentTools.echo.output [val] = [] := if_pos h
    rw [echoed, hprinted]
    rfl
  · rw [echoOption, Bool.and_eq_true, Bool.and_eq_true, decide_eq_true_eq] at h
    have hmem : '-' ∈ compact val :=
      List.mem_filter.mpr ⟨List.mem_of_head? h.1.1, by decide⟩
    exact List.ne_nil_of_mem hmem

theorem echoed_chars {echo : Echo} {val : Text} (h : ∀ c ∈ val, isValueChar c = true)
    (hoption : echoOption val = false) :
    echoed echo val = compact val ∧ ∀ c ∈ echoed echo val, c.isAlphanum = true ∨ c = '-' := by
  have heq := echoed_plain echo hoption fun c hc => (valueChar_spec (h c hc)).1.2
  exact ⟨heq, heq ▸ compact_chars h⟩

/-- With such an `echo` the values never contain anything but letters, digits and hyphens. -/
theorem silentTools_echoed {header : Text} {lines : List (Text × Text)}
    (hformed : WellFormed header lines) :
    ∀ line ∈ lines, ∀ c ∈ echoed silentTools.echo line.2, c.isAlphanum = true ∨ c = '-' := by
  intro line hline
  cases hopt : echoOption line.2 with
  | false => exact (echoed_chars (hformed.values line hline) hopt).2
  | true => simp [(echoed_option hopt).1]

section

variable {header : Text} {lines : List (Text × Text)} (hformed : WellFormed header lines)
  (c : Config) (type : Text) (size : Nat) {line : Text × Text} (hline : line ∈ lines)

include hformed hline

/-- A value for a variable that the shell keeps for itself is lost. -/
theorem not_round_trips_of_reserved (hreserved : variableName line.1 ∈ reservedVariables) :
    ¬ RoundTrips compact c silentTools FoldedSourcing.keeping.toSourcing type size header
      lines := by
  intro hround
  have hechoed := silentTools_echoed hformed
  obtain ⟨staging', hrun⟩ :=
    silentTools_run c type size (tailFromSecond (reportText header lines)) fun _ => none
  obtain ⟨uuids, huuids, henv⟩ := environment_of_run hformed c size hechoed Echo.raw_continues
    silentTools_printsNumber hrun
  obtain ⟨env, henv', hbinds⟩ := hround _ _ hrun
  obtain rfl := Option.some.inj (henv'.symm.trans henv)
  -- The variable starts with another value, which it keeps.
  obtain ⟨vars', hsource, hvalues⟩ := hbinds fun _ => 'x' :: compact line.2
  have hkept := FoldedSourcing.keeping_after (commonAssignments_plain hformed c size hechoed)
    huuids.joined.1 fun _ => 'x' :: compact line.2
  obtain rfl := Option.some.inj (hsource.symm.trans hkept)
  have hvalue := hvalues.values line hline
  rw [assignAll_eq, lastValue_ordinaryOnes hreserved] at hvalue
  exact absurd hvalue (List.cons_ne_self _ _)

/-- A value that `echo` takes for an option is lost. -/
theorem not_round_trips_of_option
    (hfree : ∀ line ∈ lines, variableName line.1 ∉ reservedVariables)
    (hoption : echoOption line.2 = true) :
    ¬ RoundTrips compact c silentTools FoldedSourcing.linewise.toSourcing type size header
      lines := by
  intro hround
  have hechoed := silentTools_echoed hformed
  obtain ⟨staging', hrun⟩ :=
    silentTools_run c type size (tailFromSecond (reportText header lines)) fun _ => none
  obtain ⟨env, henv, hbinds⟩ := round_trips_echoed hformed c size hechoed hfree Echo.raw_continues
    silentTools_printsNumber .linewise type _ _ hrun
  obtain ⟨env', henv', hbinds'⟩ := hround _ _ hrun
  -- Both statements are about the same file, but only one can be right about the option.
  obtain rfl : env = env' := Option.some.inj (henv.symm.trans henv')
  obtain ⟨vars', hsource, hvalues⟩ := hbinds fun _ => []
  obtain ⟨vars'', hsource', hvalues'⟩ := hbinds' fun _ => []
  obtain rfl : vars' = vars'' := Option.some.inj (hsource.symm.trans hsource')
  refine (echoed_option hoption).2 ?_
  calc compact line.2 = vars' (variableName line.1) := (hvalues'.values line hline).symm
    _ = echoed silentTools.echo line.2 := hvalues.values line hline
    _ = [] := (echoed_option hoption).1

end

/-- Every variable gets the value of its line without white space, whatever the tools, if and only
if no value is an option of `echo` and no variable is one that the shell keeps for itself. -/
theorem round_trip_iff {header : Text} {lines : List (Text × Text)}
    (hformed : WellFormed header lines) (c : Config) (type : Text) (size : Nat) :
    (∀ tools : Tools, tools.echo.Continues → PrintsNumber tools.bc → ∀ sourcing : FoldedSourcing,
        RoundTrips compact c tools sourcing.toSourcing type size header lines) ↔
      ∀ line ∈ lines, echoOption line.2 = false ∧ variableName line.1 ∉ reservedVariables := by
  constructor
  · intro hround
    have hfree : ∀ line ∈ lines, variableName line.1 ∉ reservedVariables :=
      fun line hline hreserved => not_round_trips_of_reserved hformed c type size hline hreserved
        (hround silentTools Echo.raw_continues silentTools_printsNumber .keeping)
    refine fun line hline => ⟨Bool.eq_false_iff.mpr fun hoption => ?_, hfree line hline⟩
    exact not_round_trips_of_option hformed c type size hline hfree hoption
      (hround silentTools Echo.raw_continues silentTools_printsNumber .linewise)
  · intro hplain tools hecho hbc sourcing staging staging' hrun
    have hechoed := fun line hline =>
      @echoed_chars tools.echo line.2 (hformed.values line hline) (hplain line hline).1
    obtain ⟨env, henv, hbinds⟩ := round_trips_echoed hformed c size
      (fun line hline => (hechoed line hline).2) (fun line hline => (hplain line hline).2) hecho
      hbc sourcing type staging staging' hrun
    refine ⟨env, henv, fun vars => ?_⟩
    obtain ⟨vars', hsource, hvalues⟩ := hbinds vars
    exact ⟨vars', hsource,
      fun line hline => (hvalues.values line hline).trans (hechoed line hline).1, hvalues.dataSize,
      hvalues.separateHash, hvalues.others⟩

/-- A salt. -/
def saltLine (val : Text) : List (Text × Text) := [("Salt".toList, val)]

theorem saltLine_wellFormed {val : Text} (h : ∀ c ∈ val, isValueChar c = true) :
    WellFormed "VERITY header information".toList (saltLine val) where
  header_line := by decide
  keys := by
    simp only [saltLine, List.mem_singleton, forall_eq]
    exact ⟨["Salt".toList], by decide, by simp, rfl⟩
  values := by simpa [saltLine] using h
  distinct := by simp [saltLine]
  others := by
    simp only [saltLine, List.mem_singleton, forall_eq]
    decide

theorem saltLine_free (val : Text) :
    ∀ line ∈ saltLine val, variableName line.1 ∉ reservedVariables := by
  intro line hline
  rw [List.mem_singleton.mp hline]
  exact (by decide : variableName "Salt".toList ∉ reservedVariables)

/-- A salt with blanks around it arrives without them. -/
theorem round_trip_salt : RoundTrips compact (exampleConfig 1) silentTools
    FoldedSourcing.linewise.toSourcing "ext4".toList 4096 "VERITY header information".toList
      (saltLine " \t12-ab ".toList) := by
  have hplain : ∀ line ∈ saltLine " \t12-ab ".toList,
      echoOption line.2 = false ∧ variableName line.1 ∉ reservedVariables := fun line hline =>
    ⟨by rw [List.mem_singleton.mp hline]; decide, saltLine_free _ line hline⟩
  exact (round_trip_iff (saltLine_wellFormed (List.forall_iff_forall_mem.mp (by decide)))
    (exampleConfig 1) "ext4".toList 4096).mpr hplain silentTools Echo.raw_continues
      silentTools_printsNumber .linewise

/-- A salt that `echo` takes for an option is lost. -/
theorem option_lost : ¬ ∀ tools : Tools, tools.echo.Continues → PrintsNumber tools.bc →
    ∀ sourcing : FoldedSourcing, RoundTrips compact (exampleConfig 0) tools sourcing.toSourcing
      "ext4".toList 4096 "VERITY header information".toList (saltLine "-n".toList) := by
  intro hround
  exact not_round_trips_of_option (saltLine_wellFormed (List.forall_iff_forall_mem.mp (by decide)))
    (exampleConfig 0) "ext4".toList 4096 (List.mem_singleton_self _) (saltLine_free _) (by decide)
    (hround silentTools Echo.raw_continues silentTools_printsNumber .linewise)

end MetaSecurity.Verity
