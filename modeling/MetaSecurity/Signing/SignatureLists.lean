import MetaSecurity.Library.Hexadecimal
import MetaSecurity.Library.Sed
import MetaSecurity.Signing.Rootfs

/-!
# The lists of signatures

The end of `ima_evm_sign_rootfs` writes the names of the signed files and their signatures to a
list: one run of `sed` picks the two lines of every file out of what `getfattr` shows, and a second
one joins the lines two by two. The second substitution of the first run also works on the line
with the name, so a name in which the attribute occurs gives a third line.
`signatureList_iff` says when every file has its line.
-/

namespace MetaSecurity.Signing

open Library Shell

/-! ## What `getfattr` shows -/

/-- The attributes that are listed. -/
inductive Attribute where
  | ima
  | evm
  deriving Repr, DecidableEq

/-- The word for the attribute in a list. -/
def Attribute.label : Attribute → Text
  | ima => "ima".toList
  | evm => "evm".toList

/-- The full name of the attribute. -/
def Attribute.name (kind : Attribute) : Text :=
  "security.".toList ++ kind.label

example : Attribute.ima.name = "security.ima".toList := by decide

example : Attribute.evm.name = "security.evm".toList := by decide

/-- A file with the attribute, and the attribute's value as `-e hex` shows it. -/
structure SignedFile where
  path : Text
  signature : Text
  hex : ∀ c ∈ signature, c = 'x' ∨ isHexDigit c = true

/-- How `getfattr` shows a path: on one line. -/
structure Getfattr where
  quote : Text → Text
  oneLine : ∀ path, '\n' ∉ quote path

/-- What stands before a path. -/
def fileMark : Text := "# file: ".toList

/-- What stands before a value. -/
def Attribute.mark (kind : Attribute) : Text :=
  kind.name ++ "=".toList

/-- The lines for one file. -/
def Getfattr.lines (getfattr : Getfattr) (kind : Attribute) (file : SignedFile) : List Text :=
  [fileMark ++ getfattr.quote file.path, kind.mark ++ file.signature, []]

/-- `getfattr -R -m security.ima --e hex --dump ./`. -/
def Getfattr.dump (getfattr : Getfattr) (kind : Attribute) (files : List SignedFile) : Text :=
  terminate '\n' (files.flatMap (getfattr.lines kind))

/-! ## The two runs of `sed` -/

/-- The commands `s|# file: |/|p` and `s|security.ima=|ima:|p`. -/
def Attribute.commands (kind : Attribute) : List (Substitution Char) :=
  [⟨fileMark, "/".toList⟩, ⟨kind.mark, kind.label ++ ":".toList⟩]

/-- What the two runs make of a text; a period in a regular expression stands for any character. -/
def signatureList (kind : Attribute) (dump : Text) : Text :=
  terminate '\n' (joined ' ' ((allRecords '\n' dump).flatMap (printing '.' kind.commands)))

/-- The line that a list should have for a file. -/
def Getfattr.listLine (getfattr : Getfattr) (kind : Attribute) (file : SignedFile) : Text :=
  '/' :: getfattr.quote file.path ++ ' ' :: (kind.label ++ ":".toList ++ file.signature)

/-- The regular expression for the attribute matches in the path as it is shown. -/
def Getfattr.mentions (getfattr : Getfattr) (kind : Attribute) (file : SignedFile) : Bool :=
  occurs '.' kind.mark (getfattr.quote file.path)

/-! ## The lines of one file -/

variable (getfattr : Getfattr) (kind : Attribute)

theorem mark_eq : ∃ word, kind.mark = 's' :: word ∧ '#' ∉ word ∧ '\n' ∉ word := by
  cases kind
  · exact ⟨"ecurity.ima=".toList, by decide⟩
  · exact ⟨"ecurity.evm=".toList, by decide⟩

/-- A signature has neither newlines nor number signs. -/
theorem SignedFile.not_mem_signature (file : SignedFile) {c : Char} (hx : c ≠ 'x')
    (hdigit : isHexDigit c = false) : c ∉ file.signature := fun hc => by
  rcases file.hex c hc with rfl | hhex
  · exact hx rfl
  · rw [hdigit] at hhex
    cases hhex

/-- The line that a path adds in which the attribute occurs. -/
def Getfattr.extraLines (file : SignedFile) : List Text :=
  if getfattr.mentions kind file then
    [Substitution.edit '.' ⟨kind.mark, kind.label ++ ":".toList⟩
      ('/' :: getfattr.quote file.path)]
  else []

theorem extraLines_eq_nil_iff (file : SignedFile) :
    getfattr.extraLines kind file = [] ↔ getfattr.mentions kind file = false := by
  rw [Getfattr.extraLines]
  cases getfattr.mentions kind file <;> simp

/-- Of the line with the path, the path is printed, and printed again if the attribute occurs in
it. -/
theorem printing_pathLine (file : SignedFile) :
    printing '.' kind.commands (fileMark ++ getfattr.quote file.path) =
      ('/' :: getfattr.quote file.path) :: getfattr.extraLines kind file := by
  have hmentions : occurs '.' kind.mark ('/' :: getfattr.quote file.path) =
      getfattr.mentions kind file := by
    obtain ⟨word, hword, -⟩ := mark_eq kind
    rw [Getfattr.mentions, hword, occurs_cons (by decide) (by decide)]
  -- The second command sees the line that the first one left.
  have hfirst := printing_append '.' ⟨fileMark, "/".toList⟩ kind.commands.tail
    (getfattr.quote file.path)
  refine hfirst.trans (congrArg (('/' :: getfattr.quote file.path) :: ·) ?_)
  rw [Getfattr.extraLines, ← hmentions]
  rfl

/-- Of the line with the value, only the second command prints. -/
theorem printing_valueLine (file : SignedFile) :
    printing '.' kind.commands (kind.mark ++ file.signature) =
      [kind.label ++ ":".toList ++ file.signature] := by
  have hnone : '#' ∉ kind.mark ++ file.signature := by
    obtain ⟨word, hword, hmark, -⟩ := mark_eq kind
    have hsignature := file.not_mem_signature (c := '#') (by decide) (by decide)
    rw [hword]
    simp [hmark, hsignature]
  have habsent : occurs '.' fileMark (kind.mark ++ file.signature) = false := by
    rw [show fileMark = '#' :: " file: ".toList by decide]
    exact occurs_eq_false (by decide) hnone
  rw [Attribute.commands, printing_absent habsent]
  exact printing_append '.' ⟨kind.mark, kind.label ++ ":".toList⟩ [] file.signature

theorem printing_emptyLine : printing '.' kind.commands [] = [] := by
  cases kind <;> rfl

/-- What the first run prints for a file. -/
theorem printing_lines (file : SignedFile) :
    (getfattr.lines kind file).flatMap (printing '.' kind.commands) =
      ('/' :: getfattr.quote file.path) :: (getfattr.extraLines kind file ++
        [kind.label ++ ":".toList ++ file.signature]) := by
  rw [Getfattr.lines, List.flatMap_cons, List.flatMap_cons, List.flatMap_cons, List.flatMap_nil,
    printing_pathLine, printing_valueLine, printing_emptyLine]
  simp

/-! ## The whole list -/

theorem oneLine_lines (file : SignedFile) : ∀ line ∈ getfattr.lines kind file, '\n' ∉ line := by
  have hsignature := file.not_mem_signature (c := '\n') (by decide) (by decide)
  have hpath := getfattr.oneLine file.path
  have hfileMark : '\n' ∉ fileMark := by decide
  obtain ⟨word, hword, -, hmark⟩ := mark_eq kind
  rw [Getfattr.lines, hword]
  simp [hfileMark, hpath, hmark, hsignature]

theorem oneLine_listLine (file : SignedFile) : '\n' ∉ getfattr.listLine kind file := by
  have hsignature := file.not_mem_signature (c := '\n') (by decide) (by decide)
  have hpath := getfattr.oneLine file.path
  cases kind <;> simp [Getfattr.listLine, Attribute.label, hpath, hsignature]

/-- What the first run prints for the files. -/
def Getfattr.printed (files : List SignedFile) : List Text :=
  files.flatMap fun file => ('/' :: getfattr.quote file.path) ::
    (getfattr.extraLines kind file ++ [kind.label ++ ":".toList ++ file.signature])

/-- The lines are joined two by two over the bounds between the files. -/
theorem signatureList_dump (files : List SignedFile) :
    signatureList kind (getfattr.dump kind files) =
      terminate '\n' (joined ' ' (getfattr.printed kind files)) := by
  have hlines : ∀ line ∈ files.flatMap (getfattr.lines kind), '\n' ∉ line := by
    rw [List.forall_mem_flatMap]
    exact fun file _ => oneLine_lines getfattr kind file
  rw [signatureList, Getfattr.dump, allRecords_terminate hlines, List.flatMap_assoc]
  simp only [printing_lines]
  rfl

/-- The lines are joined file by file exactly if no path mentions the attribute. -/
theorem joined_printed_iff (files : List SignedFile) :
    terminate '\n' (joined ' ' (getfattr.printed kind files)) =
        terminate '\n' (files.map (getfattr.listLine kind)) ↔
      ∀ file ∈ files, getfattr.mentions kind file = false := by
  have honeLine : ∀ line ∈ files.map (getfattr.listLine kind), '\n' ∉ line := by
    rw [List.forall_mem_map]
    exact fun file _ => oneLine_listLine getfattr kind file
  have hlength : (files.map (getfattr.listLine kind)).length ≤
      (joined ' ' (getfattr.printed kind files)).length := by
    rw [Getfattr.printed, length_joined_flatMap, List.length_map]
    exact Nat.le_add_right _ _
  rw [terminate_eq_terminate_iff honeLine hlength]
  refine (joined_flatMap_iff ' ' _ _ (getfattr.extraLines kind) files).trans ?_
  exact forall₂_congr fun file _ => extraLines_eq_nil_iff getfattr kind file

/-- Every file has its line, in order, and there are no other lines, exactly if no path as it is
shown has a part that matches the attribute's name with an equals sign. -/
theorem signatureList_iff (files : List SignedFile) :
    signatureList kind (getfattr.dump kind files) =
        terminate '\n' (files.map (getfattr.listLine kind)) ↔
      ∀ file ∈ files, getfattr.mentions kind file = false := by
  rw [signatureList_dump]
  exact joined_printed_iff getfattr kind files

/-! ## A list that is out of step -/

/-- `getfattr` as it is: octal numbers for newlines, carriage returns and backslashes. -/
def octalGetfattr : Getfattr where
  quote path := path.flatMap fun c =>
    if c = '\n' then "\\012".toList
    else if c = '\r' then "\\015".toList
    else if c = '\\' then "\\134".toList
    else [c]
  oneLine path := by
    rw [List.mem_flatMap]
    rintro ⟨c, -, hc⟩
    split_ifs at hc with hnewline
    · revert hc
      decide
    · revert hc
      decide
    · revert hc
      decide
    · exact hnewline (List.mem_singleton.mp hc).symm

/-- A file with a name that mentions the attribute. -/
def mentioningFile : SignedFile where
  path := "usr/share/security.ima=x".toList
  signature := "0x0302".toList
  hex := List.forall_iff_forall_mem.mp (by decide)

/-- A file after it. -/
def followingFile : SignedFile where
  path := "usr/share/y".toList
  signature := "0x0304".toList
  hex := List.forall_iff_forall_mem.mp (by decide)

/-- The name of the one file is joined with itself, and its signature with the other name. -/
theorem signatures_out_of_step :
    signatureList .ima (octalGetfattr.dump .ima [mentioningFile, followingFile]) =
        "/usr/share/security.ima=x /usr/share/ima:x\nima:0x0302 /usr/share/y\nima:0x0304\n".toList ∧
      ¬ ∀ files, signatureList .ima (octalGetfattr.dump .ima files) =
        terminate '\n' (files.map (octalGetfattr.listLine .ima)) := by
  refine ⟨by decide, fun h => ?_⟩
  have hne : signatureList .ima (octalGetfattr.dump .ima [mentioningFile]) ≠
      terminate '\n' ([mentioningFile].map (octalGetfattr.listLine .ima)) := by decide
  exact hne (h [mentioningFile])

/-! ## The list in the root file system -/

/-- The list holds what `getfattr` and the two runs of `sed` gave while it was still empty. -/
theorem writeSignatures_eq_done_iff {tools : Tools} {name : Text} {path : Path}
    {before after : Rootfs} : writeSignatures tools name (some path) before = .done after ↔
      tools.refuses .redirect path before = false ∧
        redirect path (tools.getfattr name (redirect path [] before)) before = after := by
  rw [writeSignatures, attempt]
  cases tools.refuses .redirect path before <;> simp

/-- The list that `ima_evm_sign_rootfs` leaves, where `found` are the files that have the attribute
when the list has just been emptied. -/
theorem writeSignatures_iff {tools : Tools} {found : Rootfs → List SignedFile}
    (htools : ∀ rootfs, tools.getfattr kind.name rootfs =
      signatureList kind (getfattr.dump kind (found rootfs)))
    {path : Path} {before after : Rootfs}
    (h : writeSignatures tools kind.name (some path) before = .done after) :
    (after path).map File.content =
        some (terminate '\n' ((found (redirect path [] before)).map (getfattr.listLine kind))) ↔
      ∀ file ∈ found (redirect path [] before), getfattr.mentions kind file = false := by
  obtain ⟨-, rfl⟩ := writeSignatures_eq_done_iff.mp h
  rw [redirect, Function.update_self, htools, signatureList_dump, Option.map_some, Option.some_inj]
  exact joined_printed_iff getfattr kind _

end MetaSecurity.Signing
