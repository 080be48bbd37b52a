import MetaSecurity.Verity.Uuid

/-!
# The environment files of both modes

What `process_verity` leaves behind for a report: in appended mode the assignments of the report,
the size and the mode, and in separate mode also the two UUIDs, which the `.wks.in` fragment
repeats.
-/

namespace MetaSecurity.Verity

open Library Shell

theorem isPrefixOf_append_eq {word : Text} (h : '=' ∉ word) (name value : Text) :
    word.isPrefixOf (name ++ '=' :: value) = word.isPrefixOf name := by
  induction word generalizing name with
  | nil => simp
  | cons c cs ih =>
      have hc : c ≠ '=' := fun heq => h (by simp [heq])
      cases name with
      | nil => simp [List.isPrefixOf, hc]
      | cons d ds => simp [List.isPrefixOf, ih fun hmem => h (List.mem_cons_of_mem _ hmem)]

/-- Deleting a word from a text that starts with it. -/
theorem deleteFirst_append {word : Text} (hne : word ≠ []) (t : Text) :
    deleteFirst word (word ++ t) = t := by
  cases word with
  | nil => exact absurd rfl hne
  | cons c cs =>
      have hstart : (c :: cs).isPrefixOf (c :: cs ++ t) = true := by simp
      rw [List.cons_append] at hstart ⊢
      rw [deleteFirst, if_pos hstart, ← List.cons_append, List.drop_left]

/-- A filter works on the lines one by one. -/
theorem mapLines_terminate (f : Text → Text) {lines : List Text} (h : ∀ line ∈ lines, '\n' ∉ line) :
    mapLines f (terminate '\n' lines) = terminate '\n' (lines.map f) := by
  have hrecords := records_terminate h []
  have hremainder := remainder_terminate h []
  rw [List.append_nil, records_nil, List.append_nil] at hrecords
  rw [List.append_nil, remainder_nil] at hremainder
  rw [mapLines, hrecords, hremainder, if_pos rfl, List.append_nil]

/-- What `process_verity` takes for the root hash in a file of assignments. -/
theorem rootHashOf_file {as : List Assignment} (h : ∀ a ∈ as, isPlainAssignment a = true) :
    rootHashOf (assignmentFile as) = substitution (terminate '\n'
      ((as.filter fun a => Var.rootHash.isPrefixOf a.1).map fun a =>
        (deleteFirst "ROOT_HASH=".toList (assignmentLine a)).map upperHex)) := by
  have hlines : ∀ line ∈ as.map assignmentLine, '\n' ∉ line := by
    intro line hline
    obtain ⟨a, ha, rfl⟩ := List.mem_map.mp hline
    exact newline_not_mem_assignmentLine (h a ha)
  have hrecords : allRecords '\n' (assignmentFile as) = as.map assignmentLine := by
    have hrec := records_terminate hlines []
    have hrem := remainder_terminate hlines []
    rw [List.append_nil, records_nil, List.append_nil] at hrec
    rw [List.append_nil, remainder_nil] at hrem
    rw [allRecords, assignmentFile, hrec, hrem, if_pos rfl, List.append_nil]
  have hstart : (fun line => Var.rootHash.isPrefixOf line) ∘ assignmentLine =
      fun a => Var.rootHash.isPrefixOf a.1 :=
    funext fun a => isPrefixOf_append_eq (by decide) a.1 a.2
  have hgrep : grepStart "ROOT_HASH".toList (assignmentFile as) =
      terminate '\n' ((as.filter fun a => Var.rootHash.isPrefixOf a.1).map assignmentLine) := by
    rw [grepStart, hrecords, List.filter_map, ← hstart]
    rfl
  have hkept : ∀ line ∈ (as.filter fun a => Var.rootHash.isPrefixOf a.1).map assignmentLine,
      '\n' ∉ line := fun line hline => by
    obtain ⟨a, ha, rfl⟩ := List.mem_map.mp hline
    exact newline_not_mem_assignmentLine (h a (List.mem_filter.mp ha).1)
  rw [rootHashOf, hgrep, mapLines_terminate _ hkept, terminate, List.map_flatMap, terminate,
    List.flatMap_map, List.flatMap_map, List.flatMap_map]
  congr 1
  exact List.flatMap_congr fun a _ => by simp [upperHex]

/-- The program that `bc` is given for any text without backslashes. -/
theorem half_printed (tools : Tools) {digits : Text} (h : '\\' ∉ digits) {operator : Char}
    (hoperator : operator ∈ ['/', '%']) :
    half tools digits operator =
      (tools.bc (halfProgram digits operator ++ ['\n'])).map substitution := by
  have hslash : '\\' ∉ halfProgram digits operator := by
    intro hmem
    rcases List.mem_append.mp hmem with hmem | hmem
    · rcases List.mem_append.mp hmem with hmem | hmem
      · revert hmem
        decide
      · exact h hmem
    · have hall : ∀ d ∈ ['/', '%'], '\\' ∉ d :: "2^80".toList :=
        List.forall_iff_forall_mem.mp (by decide)
      exact hall operator hoperator hmem
  have hhead : (halfProgram digits operator).head? = some 'o' := rfl
  have hopt : (halfProgram digits operator).head? ≠ some '-' := by
    rw [hhead]
    decide
  rw [half, tools.echo.output_singleton hopt hslash]

section

variable {blockSize : Nat} {rootHash : RootHash} (report : Report blockSize rootHash)
  (c : Config) (tools : Tools) (size : Nat)

/-- The only line whose variable starts with `ROOT_HASH` gives the root hash. -/
theorem filter_rootHash_common :
    (report.common c size).filter (fun a => Var.rootHash.isPrefixOf a.1) =
      [(Var.rootHash, rootHash.digits)] := by
  have hsize : Var.rootHash.isPrefixOf Var.dataSize = false := by decide
  have hmode : Var.rootHash.isPrefixOf Var.separateHash = false := by decide
  rw [Report.common, List.filter_append, List.filter_cons_of_neg (by simp [hsize]),
    List.filter_cons_of_neg (by simp [hmode]), List.filter_nil, List.append_nil]
  exact report.rootHash_eq

/-- `process_verity` reads the root hash back from the environment file. -/
theorem rootHashOf_report :
    rootHashOf (commonEnvironment c tools size (tailFromSecond report.text)) =
      rootHash.digits.map upperHex := by
  have hword : "ROOT_HASH=".toList = Var.rootHash ++ ['='] := rfl
  have hline : assignmentLine (Var.rootHash, rootHash.digits) =
      "ROOT_HASH=".toList ++ rootHash.digits := by
    rw [hword]
    simp [assignmentLine]
  have hupper : '\n' ∉ rootHash.digits.map upperHex := by
    intro hmem
    obtain ⟨d, hd, heq⟩ := List.mem_map.mp hmem
    exact (uuidChar_spec (isUuidChar_of_hex rootHash.hex d hd)).2.2.2.2.1 heq
  have hplain := plain_of_ordinary (report.ordinary_common c size)
  rw [report.commonEnvironment_report, rootHashOf_file hplain, filter_rootHash_common,
    List.map_singleton, hline, deleteFirst_append (by decide)]
  simpa using substitution_line hupper

/-- The program that `bc` is given. -/
theorem half_eq {operator : Char} (hoperator : operator ∈ ['/', '%']) :
    half tools (rootHash.digits.map upperHex) operator =
      (tools.bc (halfProgram (rootHash.digits.map upperHex) operator ++ ['\n'])).map
        substitution := by
  refine half_printed tools (fun hmem => ?_) hoperator
  obtain ⟨d, hd, heq⟩ := List.mem_map.mp hmem
  exact (uuidChar_spec (isUuidChar_of_hex rootHash.hex d hd)).2.2.2.1 heq

/-- The assignments of separate mode. -/
def Report.separate : List Assignment :=
  report.common c size ++
    [(Var.rootUuid, halfUuid rootHash '/'), (Var.rhashUuid, halfUuid rootHash '%')]

theorem Report.ordinary_separate : ∀ a ∈ report.separate c size, isOrdinaryAssignment a = true := by
  intro a ha
  have hliteral : ∀ operator, (halfUuid rootHash operator).all isLiteral = true := fun operator =>
    uuid_literal (hex_printed (hex_halfDigits rootHash operator))
  rcases List.mem_append.mp ha with ha | ha
  · exact report.ordinary_common c size a ha
  · simp only [List.mem_cons, List.not_mem_nil, or_false] at ha
    rcases ha with rfl | rfl <;>
      simp only [isOrdinaryAssignment, isPlainAssignment, hliteral, Bool.and_true] <;> decide

/-- The assignments in the environment file. -/
def Report.environment : List Assignment :=
  if c.separateHash = 0 then report.common c size else report.separate c size

theorem Report.ordinary_environment :
    ∀ a ∈ report.environment c size, isOrdinaryAssignment a = true := by
  unfold Report.environment
  split
  · exact report.ordinary_common c size
  · exact report.ordinary_separate c size

theorem Report.plain_environment : ∀ a ∈ report.environment c size, isPlainAssignment a = true :=
  plain_of_ordinary (report.ordinary_environment c size)

/-- What `bc` returns for a half of the root hash becomes the UUID of that half. -/
theorem uuidOf_half (hbc : Reliable tools.bc) {operator : Char} (hoperator : operator ∈ ['/', '%'])
    {digits : Text} (h : half tools (rootHash.digits.map upperHex) operator = some digits) :
    uuidOf tools digits = halfUuid rootHash operator := by
  rw [half_eq tools hoperator, Option.map_eq_some_iff] at h
  obtain ⟨output, houtput, rfl⟩ := h
  rw [hbc rootHash operator hoperator output houtput, substitution_bcLine,
    uuidOf_upper tools (hex_printed (hex_halfDigits rootHash operator)), halfUuid]

/-- The two files of a configuration have different names. -/
theorem envPath_ne_wksPath (type : Text) : c.envPath c.imageBasename type ≠ c.wksPath type := by
  intro h
  have hsuffix := List.append_cancel_left h
  revert hsuffix
  decide

/-- The `.wks.in` fragment of separate mode. -/
def wksFragment (rootHash : RootHash) : Text :=
  tools.echo.output [c.dataPart (halfUuid rootHash '/')] ++
    tools.echo.output [c.hashPart (halfUuid rootHash '%')]

/-- The files that `process_verity` leaves when it succeeds: the assignments of the mode, and in
separate mode a fragment that names the same UUIDs. -/
theorem processVerity_spec (hbc : Reliable tools.bc) {type : Text} {staging staging' : Staging}
    (hrun : processVerity c tools type size (tailFromSecond report.text) staging = some staging') :
    staging' (c.envPath c.imageBasename type) =
        some (assignmentFile (report.environment c size)) ∧
      (c.separateHash ≠ 0 → staging' (c.wksPath type) = some (wksFragment c tools rootHash)) := by
  by_cases hmode : c.separateHash = 0
  · rw [processVerity, if_pos hmode, report.commonEnvironment_report, Option.some.injEq] at hrun
    rw [← hrun, Function.update_self, Report.environment, if_pos hmode]
    exact ⟨rfl, fun h => absurd hmode h⟩
  · simp only [processVerity, if_neg hmode, rootHashOf_report, Option.bind_eq_bind,
      Option.bind_eq_some_iff, Option.some.injEq] at hrun
    obtain ⟨high, hhigh, low, hlow, heq⟩ := hrun
    have hplain := plain_of_ordinary (report.ordinary_separate c size)
    have hroot := echo_assignment tools.echo
      (hplain (Var.rootUuid, halfUuid rootHash '/') (by simp [Report.separate]))
    have hrhash := echo_assignment tools.echo
      (hplain (Var.rhashUuid, halfUuid rootHash '%') (by simp [Report.separate]))
    have hrootText : ∀ uuid, "ROOT_UUID=".toList ++ uuid = assignmentLine (Var.rootUuid, uuid) :=
      fun _ => rfl
    have hrhashText : ∀ uuid, "RHASH_UUID=".toList ++ uuid =
        assignmentLine (Var.rhashUuid, uuid) := fun _ => rfl
    rw [uuidOf_half tools hbc (by simp) hhigh, uuidOf_half tools hbc (by simp) hlow, hrootText,
      hrhashText, hroot, hrhash, report.commonEnvironment_report] at heq
    rw [← heq, Function.update_of_ne (envPath_ne_wksPath c type), Function.update_self,
      Function.update_self, Report.environment, if_neg hmode]
    exact ⟨by simp [assignmentFile, Report.separate], fun _ => rfl⟩

/-- `process_verity` succeeds when `bc` does. -/
theorem processVerity_isSome (hbc : c.separateHash ≠ 0 → Calculates tools.bc) (type : Text)
    (staging : Staging) :
    (processVerity c tools type size (tailFromSecond report.text) staging).isSome = true := by
  by_cases hmode : c.separateHash = 0
  · rw [processVerity, if_pos hmode]
    rfl
  · have hhalf : ∀ operator ∈ ['/', '%'],
        half tools (rootHash.digits.map upperHex) operator =
          some (substitution (bcLine (halfNumber rootHash operator))) := by
      intro operator hoperator
      rw [half_eq tools hoperator, hbc hmode rootHash operator hoperator]
      rfl
    simp only [processVerity, if_neg hmode, rootHashOf_report, hhalf '/' (by simp),
      hhalf '%' (by simp), Option.bind_eq_bind, Option.bind_some]
    rfl

/-! ## The variables in the environment file -/

/-- Only separate mode adds something, and only the two UUIDs. -/
theorem lastValue_environment {name value : Text} (hroot : Var.rootUuid ≠ name)
    (hrhash : Var.rhashUuid ≠ name) (h : lastValue name (report.common c size) = some value) :
    lastValue name (report.environment c size) = some value := by
  unfold Report.environment
  split
  · exact h
  · rw [Report.separate, lastValue_append, lastValue_pair, if_neg hrhash, if_neg hroot, h,
      Option.none_or]

theorem lastValue_blockSize :
    lastValue Var.dataBlockSize (report.environment c size) = some (decimal blockSize) := by
  refine lastValue_environment report c size (by decide) (by decide) ?_
  have hreport : lastValue Var.dataBlockSize report.assignments = some (decimal blockSize) := by
    rw [lastValue, Report.assignments, report.blockSize_eq]
    rfl
  rw [Report.common, lastValue_append, lastValue_pair, if_neg (by decide), if_neg (by decide),
    hreport, Option.none_or]

theorem lastValue_rootHash :
    lastValue Var.rootHash (report.environment c size) = some rootHash.digits := by
  refine lastValue_environment report c size (by decide) (by decide) ?_
  have hstart : ∀ a : Assignment, decide (a.1 = Var.rootHash) =
      (decide (a.1 = Var.rootHash) && Var.rootHash.isPrefixOf a.1) := by
    intro a
    by_cases h : a.1 = Var.rootHash
    · rw [h]
      decide
    · simp [h]
  have hfilter : (report.common c size).filter (fun a => a.1 = Var.rootHash) =
      [(Var.rootHash, rootHash.digits)] := by
    rw [show (fun a : Assignment => decide (a.1 = Var.rootHash)) = _ from funext hstart,
      ← List.filter_filter, filter_rootHash_common]
    simp
  rw [lastValue, hfilter]
  rfl

theorem lastValue_dataSize :
    lastValue Var.dataSize (report.environment c size) = some (decimal size) := by
  refine lastValue_environment report c size (by decide) (by decide) ?_
  rw [Report.common, lastValue_append, lastValue_pair, if_neg (by decide), if_pos rfl,
    Option.some_or]

theorem lastValue_separateHash :
    lastValue Var.separateHash (report.environment c size) = some (decimal c.separateHash) := by
  refine lastValue_environment report c size (by decide) (by decide) ?_
  rw [Report.common, lastValue_append, lastValue_pair, if_pos rfl, Option.some_or]

theorem lastValue_uuids (hmode : c.separateHash ≠ 0) :
    lastValue Var.rootUuid (report.environment c size) = some (halfUuid rootHash '/') ∧
      lastValue Var.rhashUuid (report.environment c size) = some (halfUuid rootHash '%') := by
  rw [Report.environment, if_neg hmode, Report.separate, lastValue_append, lastValue_append,
    lastValue_pair, lastValue_pair, if_neg (by decide), if_pos rfl, if_pos rfl, Option.some_or,
    Option.some_or]
  exact ⟨rfl, rfl⟩

end

end MetaSecurity.Verity
