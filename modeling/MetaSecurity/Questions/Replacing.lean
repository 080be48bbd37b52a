import MetaSecurity.Library.Exceptions
import MetaSecurity.Questions.Rewriting

/-!
# Replacing a questions file

`xform_file` operation by operation. The generator `add_requires` is run by the loop that writes its
lines to a temporary file, so that a line is read, yielded and written before the next one is looked
at. The temporary file then takes the place of the questions file, which is removed first:
`xformFile_atomic_iff` says which exceptions leave neither the old contents nor the new ones.
-/

namespace MetaSecurity.Questions

open Library Python Exceptions

/-- The file system as `xform_file` finds it: the directory entries that paths lead to, a free entry
for the temporary file, and the exceptions that its operations raise. Reads and writes are counted.
`spooled` is how much of the text has reached the temporary file when an exception ends the writing.
If `os.rename` cannot move the file, `shutil.move` copies it; `copying` is an exception with the
number of characters that were copied before it. -/
structure FileSystem (ι : Type) where
  locate : Text → ι
  openIn : Option Raised
  createOut : Files ι → Except Raised ι
  fresh : ∀ files entry, createOut files = .ok entry → files entry = none
  read : Nat → Option Raised
  write : Nat → Option Raised
  spooled : Nat
  closeOut : Option Raised
  closeIn : Option Raised
  copystat : Option Raised
  remove : Option Raised
  renames : Bool
  openSource : Option Raised
  openTarget : Option Raised
  copying : Option (Raised × Nat)
  copystatTarget : Option Raised
  unlink : Option Raised

/-! ## The generator -/

/-- The three loops of `add_requires`. -/
inductive Loop where
  | labels
  | requires
  | rest
  deriving Repr, DecidableEq

/-- What the generator does with a line: it raises an exception, or yields a line and then goes on
in one of its loops or raises an exception. -/
def generate (theIdent distro : Text) :
    Loop → Text → Except ValueError (Text × Except ValueError Loop)
  | .labels, line =>
      .ok (line,
        if isLabel line then
          match splitTwo ':' line with
          | none => .error (.questionsLine line)
          | some (_, ident) => if strip ident = theIdent then .ok .requires else .ok .labels
        else .ok .labels)
  | .requires, line =>
      if isRequire line then
        match checkContains line distro with
        | .error e => .error e
        | .ok true => .ok (line, .ok .rest)
        | .ok false => .ok (withDistro distro line, .ok .rest)
      else .ok (line, .ok .requires)
  | .rest, line => .ok (line, .ok .rest)

variable {ι : Type}

/-- The loop of `xform_file` from the `i`th line on: the text handed to the temporary file, and the
exception that ends the loop. -/
def copyLines (fs : FileSystem ι) (theIdent distro : Text) :
    Loop → Nat → List Text → Text × Option Raised
  | _, i, [] => ([], fs.read i)
  | loop, i, line :: rest =>
      match fs.read i with
      | some raised => ([], some raised)
      | none =>
          match generate theIdent distro loop line with
          | .error e => ([], some (.valueError e))
          | .ok (yielded, next) =>
              match fs.write i with
              | some raised => (yielded, some raised)
              | none =>
                  match next with
                  | .error e => (yielded, some (.valueError e))
                  | .ok loop' =>
                      let (written, raised) := copyLines fs theIdent distro loop' (i + 1) rest
                      (yielded ++ written, raised)

/-! ## The function -/

variable [DecidableEq ι]

/-- What `xform_file` and `shutil.move` do. -/
abbrev Action (ι α : Type) := EStateM Raised (Files ι) α

/-- Give a file new contents, or none. -/
def store (entry : ι) (content : Option Text) : Action ι Unit :=
  change fun files => Function.update files entry content

/-- `shutil.move`, when there is no file at the target. -/
def move (fs : FileSystem ι) (source target : ι) : Action ι Unit := do
  let files ← get
  if fs.renames then
    store target (files source)
    store source none
  else
    attempt fs.openSource
    attempt fs.openTarget
    match fs.copying with
    | some (raised, n) =>
        store target ((files source).map (List.take n))
        throw raised
    | none => store target (files source)
    attempt fs.copystatTarget
    attempt fs.unlink
    store source none

/-- The temporary file that `tempfile` makes. -/
def createTemporary (fs : FileSystem ι) : Action ι ι := do
  match fs.createOut (← get) with
  | .error raised => throw raised
  | .ok temporary => return temporary

/-- The part of `xform_file` that writes the temporary file. -/
def fillTemporary (fs : FileSystem ι) (temporary : ι) (distro qlabel text : Text) :
    Action ι Unit := do
  let (written, raised) := copyLines fs qlabel distro .labels 0 (readlines text)
  -- an exception leaves the part that is no longer in a buffer
  store temporary (some (written.take fs.spooled))
  attempt raised
  attempt fs.closeOut
  store temporary (some written)
  attempt fs.closeIn
  attempt fs.copystat

/-- `xform_file`. -/
def FileSystem.xformFile (fs : FileSystem ι) (qfile distro qlabel : Text) : Action ι Unit := do
  match (← get) (fs.locate qfile) with
  | none => throw (.ioError (noSuchFile qfile))
  | some text =>
      attempt fs.openIn
      let temporary ← createTemporary fs
      fillTemporary fs temporary distro qlabel text
      attempt fs.remove
      store (fs.locate qfile) none
      move fs temporary (fs.locate qfile)

/-! ## The loop -/

/-- What the generator yields from one of its loops on. -/
def generated (theIdent distro : Text) : Loop → List Text → Except ValueError (List Text)
  | .labels => addRequires theIdent distro
  | .requires => addDistro distro
  | .rest => .ok

/-- One line of the generator. -/
theorem generated_cons (theIdent distro : Text) (loop : Loop) (line : Text) (rest : List Text) :
    generated theIdent distro loop (line :: rest) =
      match generate theIdent distro loop line with
      | .error e => .error e
      | .ok (_, .error e) => .error e
      | .ok (yielded, .ok loop') => (generated theIdent distro loop' rest).map (yielded :: ·) := by
  cases loop with
  | labels =>
      rw [generated, generate, addRequires]
      by_cases hlabel : isLabel line = true
      · rw [if_pos hlabel, if_pos hlabel]
        cases splitTwo ':' line with
        | none => rfl
        | some parts =>
            by_cases hident : strip parts.2 = theIdent
            · simp only [if_pos hident, generated]
            · simp only [if_neg hident, generated]
      · rw [if_neg hlabel, if_neg hlabel]
        rfl
  | requires =>
      rw [generated, generate, addDistro]
      by_cases hrequire : isRequire line = true
      · rw [if_pos hrequire, if_pos hrequire]
        cases checkContains line distro with
        | error e => rfl
        | ok listed => cases listed <;> rfl
      · rw [if_neg hrequire, if_neg hrequire]
        rfl
  | rest => rfl

/-- No read and no write of the lines from the `first` one on raises an exception. -/
def FileSystem.Copies (fs : FileSystem ι) (first count : Nat) : Prop :=
  (∀ i ≤ count, fs.read (first + i) = none) ∧ ∀ i < count, fs.write (first + i) = none

omit [DecidableEq ι] in
theorem copies_succ {fs : FileSystem ι} {first count : Nat} :
    fs.Copies first (count + 1) ↔
      fs.read first = none ∧ fs.write first = none ∧ fs.Copies (first + 1) count := by
  have hshift : ∀ i, first + 1 + i = first + (i + 1) := fun i => by omega
  constructor
  · rintro ⟨hread, hwrite⟩
    refine ⟨hread 0 (by omega), hwrite 0 (by omega), fun i hi => ?_, fun i hi => ?_⟩
    · rw [hshift]
      exact hread (i + 1) (by omega)
    · rw [hshift]
      exact hwrite (i + 1) (by omega)
  · rintro ⟨hread, hwrite, hreads, hwrites⟩
    refine ⟨fun i hi => ?_, fun i hi => ?_⟩
    · cases i with
      | zero => exact hread
      | succ i => exact hshift i ▸ hreads i (by omega)
    · cases i with
      | zero => exact hwrite
      | succ i => exact hshift i ▸ hwrites i (by omega)

omit [DecidableEq ι] in
/-- The loop ends without an exception when neither the file system nor the generator raises one,
and has then written what the generator yields. -/
theorem copyLines_eq_none {fs : FileSystem ι} {theIdent distro : Text} {loop : Loop} {first : Nat}
    {lines : List Text} {written : Text} :
    copyLines fs theIdent distro loop first lines = (written, none) ↔
      fs.Copies first lines.length ∧
        ∃ out, generated theIdent distro loop lines = .ok out ∧ written = out.flatten := by
  induction lines generalizing loop first written with
  | nil =>
      have hread : fs.Copies first 0 ↔ fs.read first = none := by simp [FileSystem.Copies]
      have hgenerated : generated theIdent distro loop [] = .ok [] := by cases loop <;> rfl
      rw [copyLines, Prod.mk.injEq, List.length_nil, hread, hgenerated]
      simp [and_comm, eq_comm]
  | cons line rest ih =>
      rw [copyLines, List.length_cons, copies_succ, generated_cons]
      cases fs.read first with
      | some raised => simp
      | none =>
          cases generate theIdent distro loop line with
          | error e => simp
          | ok step =>
              obtain ⟨yielded, next⟩ := step
              cases fs.write first with
              | some raised => simp
              | none =>
                  cases next with
                  | error e => simp
                  | ok loop' =>
                      rw [Prod.mk.injEq]
                      constructor
                      · rintro ⟨rfl, hnone⟩
                        obtain ⟨hcopies, out, hout, hwritten⟩ := ih.mp (Prod.ext rfl hnone)
                        exact ⟨⟨rfl, rfl, hcopies⟩, yielded :: out,
                          congrArg (Except.map (yielded :: ·)) hout,
                          congrArg (yielded ++ ·) hwritten⟩
                      · rintro ⟨⟨-, -, hcopies⟩, out, hout, rfl⟩
                        obtain ⟨out', hout', rfl⟩ := map_cons_eq_ok hout
                        rw [ih.mpr ⟨hcopies, out', hout', rfl⟩]
                        exact ⟨rfl, rfl⟩

/-! ## The temporary file -/

variable {fs : FileSystem ι}

/-- No exception is raised before the questions file is removed, nor by its removal. -/
structure FileSystem.Quiet (fs : FileSystem ι) (files : Files ι) (count : Nat) : Prop where
  openIn : fs.openIn = none
  createOut : ∃ temporary, fs.createOut files = .ok temporary
  copies : fs.Copies 0 count
  closeOut : fs.closeOut = none
  closeIn : fs.closeIn = none
  copystat : fs.copystat = none
  remove : fs.remove = none

theorem store_eq_ok {entry : ι} {content : Option Text} {files files' : Files ι} {x : Unit} :
    store entry content files = .ok x files' ↔ files' = Function.update files entry content := by
  change EStateM.Result.ok PUnit.unit (Function.update files entry content) = _ ↔ _
  simp [eq_comm]

theorem keeps_store {P : Files ι → Prop} {entry : ι} {content : Option Text}
    (h : ∀ files, P files → P (Function.update files entry content)) :
    Keeps P (store entry content) := Keeps.change h

omit [DecidableEq ι] in
theorem createTemporary_eq_ok {files files' : Files ι} {temporary : ι} :
    createTemporary fs files = .ok temporary files' ↔
      fs.createOut files = .ok temporary ∧ files' = files := by
  change (match fs.createOut files with
    | .error raised => (throw raised : Action ι ι)
    | .ok temporary => pure temporary) files = _ ↔ _
  cases fs.createOut files with
  | error raised => exact iff_of_false nofun nofun
  | ok other =>
      change EStateM.Result.ok other files = _ ↔ _
      simp [eq_comm]

omit [DecidableEq ι] in
theorem createTemporary_of_error {files : Files ι} {raised : Raised}
    (h : fs.createOut files = .error raised) :
    createTemporary fs files = .error raised files := by
  change (match fs.createOut files with
    | .error raised => (throw raised : Action ι ι)
    | .ok temporary => pure temporary) files = _
  rw [h]
  rfl

/-- The temporary file is complete when there was no exception. -/
theorem fillTemporary_eq_ok {temporary : ι} {distro qlabel text : Text} {files files' : Files ι} :
    fillTemporary fs temporary distro qlabel text files = .ok ⟨⟩ files' ↔
      (fs.Copies 0 (readlines text).length ∧ fs.closeOut = none ∧ fs.closeIn = none ∧
          fs.copystat = none) ∧
        ∃ out, addRequires qlabel distro (readlines text) = .ok out ∧
          files' = Function.update files temporary (some out.flatten) := by
  cases hloop : copyLines fs qlabel distro .labels 0 (readlines text) with
  | mk written raised =>
      unfold fillTemporary
      rw [hloop]
      simp only [bind_eq_ok, attempt_eq_ok, store_eq_ok]
      constructor
      · rintro ⟨-, -, rfl, -, -, ⟨rfl, rfl⟩, -, -, ⟨hcloseOut, rfl⟩, -, -, rfl, -, -,
          ⟨hcloseIn, rfl⟩, hcopystat, rfl⟩
        obtain ⟨hcopies, out, hout, rfl⟩ := copyLines_eq_none.mp hloop
        exact ⟨⟨hcopies, hcloseOut, hcloseIn, hcopystat⟩, out, hout, Function.update_idem ..⟩
      · rintro ⟨⟨hcopies, hcloseOut, hcloseIn, hcopystat⟩, out, hout, rfl⟩
        have hrun : copyLines fs qlabel distro .labels 0 (readlines text) = (out.flatten, none) :=
          copyLines_eq_none.mpr ⟨hcopies, out, hout, rfl⟩
        rw [hloop] at hrun
        obtain ⟨rfl, rfl⟩ := Prod.mk.inj hrun
        exact ⟨⟨⟩, _, rfl, ⟨⟩, _, ⟨rfl, rfl⟩, ⟨⟩, _, ⟨hcloseOut, rfl⟩, ⟨⟩, _, rfl, ⟨⟩, _,
          ⟨hcloseIn, rfl⟩, hcopystat, (Function.update_idem ..).symm⟩

/-- Other files are left alone. -/
theorem keeps_fillTemporary (fs : FileSystem ι) {entry temporary : ι} (h : entry ≠ temporary)
    (content : Option Text) (distro qlabel text : Text) :
    Keeps (fun files : Files ι => files entry = content)
      (fillTemporary fs temporary distro qlabel text) := by
  have hstore : ∀ other, Keeps (fun files : Files ι => files entry = content)
      (store temporary other) := fun other =>
    keeps_store fun files hfile => by rw [Function.update_of_ne h, hfile]
  unfold fillTemporary
  exact (hstore _).bind fun _ => (Keeps.attempt _).bind fun _ => (Keeps.attempt _).bind fun _ =>
    (hstore _).bind fun _ => (Keeps.attempt _).bind fun _ => Keeps.attempt _

/-! ## The new file in place of the old one -/

/-- What `shutil.move` leaves at its target. -/
def movedText (fs : FileSystem ι) (text : Text) : Option Text :=
  if fs.renames then some text
  else if fs.openSource.isSome || fs.openTarget.isSome then none
  else
    match fs.copying with
    | some (_, n) => some (text.take n)
    | none => some text

theorem stateAfter_move {source target : ι} (hne : target ≠ source) {files : Files ι} {text : Text}
    (hsource : files source = some text) (htarget : files target = none) :
    stateAfter (move fs source target) files target = movedText fs text := by
  unfold move
  rw [stateAfter_bind_of_ok (get_apply files), movedText]
  split
  · have hlast : ∀ files' : Files ι, stateAfter (store source none) files' target = files' target :=
      fun files' => Function.update_of_ne hne ..
    have hfirst : store target (files source) files =
      .ok ⟨⟩ (Function.update files target (files source)) := rfl
    rw [stateAfter_bind_of_ok hfirst, hlast, Function.update_self, hsource]
  · cases hopenSource : fs.openSource with
    | some raised => exact htarget
    | none =>
        cases hopenTarget : fs.openTarget with
        | some raised => exact htarget
        | none =>
            have hstored : ∀ content : Option Text,
                Function.update files target content target = content := fun content =>
              Function.update_self ..
            cases fs.copying with
            | some failure =>
                refine (hstored ((files source).map (List.take failure.2))).trans ?_
                rw [hsource]
                rfl
            | none =>
                have hrest : Keeps (fun files' : Files ι => files' target = some text)
                    (attempt fs.copystatTarget >>= fun _ => attempt fs.unlink >>= fun _ =>
                      store source none) :=
                  (Keeps.attempt _).bind fun _ => (Keeps.attempt _).bind fun _ =>
                    keeps_store fun files' hfile => by rw [Function.update_of_ne hne, hfile]
                exact hrest _ ((hstored (files source)).trans hsource)

/-- The new file arrives whole, or a part of it that is as the old file was. -/
def Arrives (fs : FileSystem ι) (text new : Text) : Prop :=
  fs.renames = true ∨ fs.openSource = none ∧ fs.openTarget = none ∧
    ∀ raised n, fs.copying = some (raised, n) → new.take n = new ∨ new.take n = text

omit [DecidableEq ι] in
theorem arrives_iff {text new : Text} :
    Arrives fs text new ↔ movedText fs new = some text ∨ movedText fs new = some new := by
  unfold Arrives movedText
  by_cases hrenames : fs.renames = true
  · simp [hrenames]
  · rw [if_neg hrenames, or_iff_right hrenames]
    cases fs.openSource with
    | some raised => simp
    | none =>
        cases fs.openTarget with
        | some raised => simp
        | none =>
            cases fs.copying with
            | some failure =>
                obtain ⟨raised, n⟩ := failure
                simp [or_comm]
            | none => simp

/-! ## Whole runs -/

/-- The entry is not that of the temporary file. -/
def Untouched (fs : FileSystem ι) (files : Files ι) (entry : ι) : Prop :=
  ∀ temporary, fs.createOut files = .ok temporary → entry ≠ temporary

/-- The questions file has its old contents or all of its new ones. -/
def Intact (distro qlabel text : Text) (left : Option Text) : Prop :=
  left = some text ∨
    ∃ out, addRequires qlabel distro (readlines text) = .ok out ∧ left = some out.flatten

section

variable {files : Files ι} {qfile distro qlabel text : Text}
  (hfile : files (fs.locate qfile) = some text)

include hfile

/-- A run stops before the old file is gone, and has changed no other file than the temporary one,
or goes on to replace the old file. -/
theorem xformFile_cases :
    (∃ raised files', fs.xformFile qfile distro qlabel files = .error raised files' ∧
        (∀ out, addRequires qlabel distro (readlines text) = .ok out →
          ¬ fs.Quiet files (readlines text).length) ∧
        ∀ entry, Untouched fs files entry → files' entry = files entry) ∨
      ∃ temporary out, fs.createOut files = .ok temporary ∧
        addRequires qlabel distro (readlines text) = .ok out ∧
        fs.Quiet files (readlines text).length ∧
        fs.xformFile qfile distro qlabel files =
          move fs temporary (fs.locate qfile)
            (Function.update (Function.update files temporary (some out.flatten))
              (fs.locate qfile) none) := by
  rw [FileSystem.xformFile, bind_of_ok (get_apply files), hfile]
  dsimp only
  -- The cases are the operations up to the removal, in their order: each stops the run or not.
  cases hopen : fs.openIn with
  | some raised =>
      refine .inl ⟨raised, files, rfl, fun out _ hquiet => ?_, fun _ _ => rfl⟩
      rw [hquiet.openIn] at hopen
      cases hopen
  | none =>
      rw [bind_of_ok (attempt_none files)]
      cases hcreate : fs.createOut files with
      | error raised =>
          rw [bind_of_error (createTemporary_of_error hcreate)]
          refine .inl ⟨raised, files, rfl, fun out _ hquiet => ?_, fun _ _ => rfl⟩
          obtain ⟨temporary, htemporary⟩ := hquiet.createOut
          rw [hcreate] at htemporary
          cases htemporary
      | ok temporary =>
          rw [bind_of_ok (createTemporary_eq_ok.mpr ⟨hcreate, rfl⟩)]
          cases hfill : fillTemporary fs temporary distro qlabel text files with
          | error raised files' =>
              rw [bind_of_error hfill]
              refine .inl ⟨raised, files', rfl, fun out hout hquiet => ?_, fun entry hentry => ?_⟩
              · have hok : fillTemporary fs temporary distro qlabel text files = .ok ⟨⟩ _ :=
                  fillTemporary_eq_ok.mpr ⟨⟨hquiet.copies, hquiet.closeOut, hquiet.closeIn,
                    hquiet.copystat⟩, out, hout, rfl⟩
                rw [hfill] at hok
                cases hok
              · have hkept := keeps_fillTemporary fs (hentry temporary hcreate) (files entry) distro
                  qlabel text files rfl
                rwa [stateAfter_of_error hfill] at hkept
          | ok x files' =>
              obtain ⟨⟨hcopies, hcloseOut, hcloseIn, hcopystat⟩, out, hout, rfl⟩ :=
                fillTemporary_eq_ok.mp hfill
              rw [bind_of_ok hfill]
              cases hremove : fs.remove with
              | some raised =>
                  refine .inl ⟨raised, _, bind_of_error (attempt_some raised _),
                    fun out _ hquiet => ?_, fun entry hentry => ?_⟩
                  · rw [hquiet.remove] at hremove
                    cases hremove
                  · rw [Function.update_of_ne (hentry temporary hcreate)]
              | none =>
                  have hstore : ∀ files' : Files ι, store (fs.locate qfile) none files' =
                      .ok ⟨⟩ (Function.update files' (fs.locate qfile) none) := fun _ => rfl
                  rw [bind_of_ok (attempt_none _), bind_of_ok (hstore _)]
                  exact .inr ⟨temporary, out, rfl, hout, ⟨hopen, ⟨temporary, hcreate⟩, hcopies,
                    hcloseOut, hcloseIn, hcopystat, hremove⟩, rfl⟩

omit [DecidableEq ι] in
/-- The questions file is not the temporary one. -/
theorem untouched_questions : Untouched fs files (fs.locate qfile) := by
  intro temporary hcreate heq
  rw [heq, fs.fresh files temporary hcreate] at hfile
  cases hfile

omit hfile in
/-- The questions file after it was replaced. -/
theorem stateAfter_of_replaced {temporary : ι} {new : Text} (hne : fs.locate qfile ≠ temporary)
    (hrun : fs.xformFile qfile distro qlabel files =
      move fs temporary (fs.locate qfile)
        (Function.update (Function.update files temporary (some new)) (fs.locate qfile) none)) :
    stateAfter (fs.xformFile qfile distro qlabel) files (fs.locate qfile) = movedText fs new := by
  rw [stateAfter, hrun]
  refine stateAfter_move hne ?_ (Function.update_self ..)
  rw [Function.update_of_ne hne.symm, Function.update_self]

/-- Whichever operations raise exceptions, the questions file is intact afterwards, exactly when no
exception between the removal of the old file and the end of the copy leaves a part of it. -/
theorem xformFile_atomic_iff :
    Intact distro qlabel text
        (stateAfter (fs.xformFile qfile distro qlabel) files (fs.locate qfile)) ↔
      ∀ out, addRequires qlabel distro (readlines text) = .ok out →
        fs.Quiet files (readlines text).length → Arrives fs text out.flatten := by
  have hne := untouched_questions hfile
  rcases xformFile_cases hfile with
    ⟨raised, files', hrun, hnot, hkept⟩ | ⟨temporary, out, hcreate, hout, hquiet, hrun⟩
  · rw [stateAfter_of_error hrun, hkept _ hne]
    exact iff_of_true (.inl hfile) fun out hout hquiet => absurd hquiet (hnot out hout)
  · rw [stateAfter_of_replaced (hne temporary hcreate) hrun, Intact]
    constructor
    · intro hintact other hother _
      obtain rfl : other = out := Except.ok.inj (hother.symm.trans hout)
      rw [arrives_iff]
      refine hintact.imp_right ?_
      rintro ⟨other', hother', heq⟩
      obtain rfl : other' = other := Except.ok.inj (hother'.symm.trans hout)
      exact heq
    · intro harrives
      exact (arrives_iff.mp (harrives out hout hquiet)).imp_right fun heq => ⟨out, hout, heq⟩

end

/-- A questions file in the file `true`; the temporary one is `false`. The questions are on another
device, which is full: copying the new file stops after nine characters. -/
def fullDevice : FileSystem Bool where
  locate _ := true
  openIn := none
  createOut files := if files false = none then .ok false else .error (.ioError [])
  fresh files entry h := by
    split at h
    · next hfree =>
      cases h
      exact hfree
    · cases h
  read _ := none
  write _ := none
  spooled := 0
  closeOut := none
  closeIn := none
  copystat := none
  remove := none
  renames := false
  openSource := none
  openTarget := none
  copying := some (.ioError "[Errno 28] No space left on device".toList, 9)
  copystatTarget := none
  unlink := none

/-- A file with one question. -/
def questionFiles : Files Bool
  | true => some "LABEL: b\nREQUIRE_DISTRO:RH\n".toList
  | false => none

/-- `xformFile_atomic_iff` for another question, whose label is not in the file. -/
theorem xformFile_atomic_other :
    Intact "Yocto".toList "a".toList "LABEL: b\nREQUIRE_DISTRO:RH\n".toList
        (stateAfter (fullDevice.xformFile "q.txt".toList "Yocto".toList "a".toList) questionFiles
          true) ↔
      ∀ out, addRequires "a".toList "Yocto".toList
          (readlines "LABEL: b\nREQUIRE_DISTRO:RH\n".toList) = .ok out →
        fullDevice.Quiet questionFiles
            (readlines "LABEL: b\nREQUIRE_DISTRO:RH\n".toList).length →
          Arrives fullDevice "LABEL: b\nREQUIRE_DISTRO:RH\n".toList out.flatten :=
  xformFile_atomic_iff rfl

/-- There the question loses its list of distributions, which neither the old file nor the new one
lacks. -/
theorem part_of_file_left :
    ¬ Intact "Yocto".toList "b".toList "LABEL: b\nREQUIRE_DISTRO:RH\n".toList
        (stateAfter (fullDevice.xformFile "q.txt".toList "Yocto".toList "b".toList) questionFiles
          true) := by
  have hleft : stateAfter (fullDevice.xformFile "q.txt".toList "Yocto".toList "b".toList)
      questionFiles true = some "LABEL: b\n".toList := by decide
  rw [hleft]
  rintro (hold | ⟨out, hout, hnew⟩)
  · exact absurd hold (by decide)
  · have hlines : addRequires "b".toList "Yocto".toList
        (readlines "LABEL: b\nREQUIRE_DISTRO:RH\n".toList) =
          .ok ["LABEL: b\n".toList, "REQUIRE_DISTRO:RH Yocto\n".toList] := by decide
    rw [hlines, Except.ok.injEq] at hout
    subst hout
    exact absurd hnew (by decide)

/-! ## The run of the script -/

/-- A move without an exception leaves the whole file. -/
theorem movedText_of_moved {source target : ι} {files : Files ι} (text : Text)
    (h : raisedBy (move fs source target) files = none) : movedText fs text = some text := by
  rw [raisedBy, move, bind_of_ok (get_apply files)] at h
  unfold movedText
  by_cases hrenames : fs.renames = true
  · exact if_pos hrenames
  · rw [if_neg hrenames] at h ⊢
    cases hsource : fs.openSource with
    | some raised =>
        rw [hsource] at h
        cases h
    | none =>
        cases htarget : fs.openTarget with
        | some raised =>
            rw [hsource, htarget] at h
            cases h
        | none =>
            cases hcopying : fs.copying with
            | some failure =>
                rw [hsource, htarget, hcopying] at h
                cases h
            | none => rfl

/-- Other files are left alone. -/
theorem keeps_move {entry source target : ι} (hsource : entry ≠ source) (htarget : entry ≠ target)
    (content : Option Text) :
    Keeps (fun files : Files ι => files entry = content) (move fs source target) := by
  have hstore : ∀ {other : ι}, entry ≠ other → ∀ stored,
      Keeps (fun files : Files ι => files entry = content) (store other stored) := fun hne stored =>
    keeps_store fun files hfile => by rw [Function.update_of_ne hne, hfile]
  have hlast : Keeps (fun files : Files ι => files entry = content)
      (attempt fs.copystatTarget >>= fun _ => attempt fs.unlink >>= fun _ => store source none) :=
    (Keeps.attempt _).bind fun _ => (Keeps.attempt _).bind fun _ => hstore hsource _
  intro files hfile
  rw [move, stateAfter_bind_of_ok (get_apply files)]
  split
  · exact (hstore htarget _).bind (fun _ => hstore hsource _) files hfile
  · refine Keeps.bind (P := fun files : Files ι => files entry = content) (Keeps.attempt _)
      (fun _ => (Keeps.attempt _).bind fun _ => ?_) files hfile
    cases fs.copying with
    | some failure => exact (hstore htarget _).bind fun _ => (Keeps.throw _).bind fun _ => hlast
    | none => exact (hstore htarget _).bind fun _ => hlast

/-- A replacement changes the questions file and the temporary one. -/
theorem update_movedText_of_replaced {files : Files ι} {qfile distro qlabel : Text} {temporary : ι}
    {new : Text} (hne : fs.locate qfile ≠ temporary)
    (hrun : fs.xformFile qfile distro qlabel files =
      move fs temporary (fs.locate qfile)
        (Function.update (Function.update files temporary (some new)) (fs.locate qfile) none))
    {entry : ι} (hentry : entry ≠ temporary) :
    Function.update files (fs.locate qfile) (movedText fs new) entry =
      stateAfter (fs.xformFile qfile distro qlabel) files entry := by
  by_cases heq : entry = fs.locate qfile
  · rw [heq, Function.update_self, stateAfter_of_replaced hne hrun]
  · have hstart : Function.update (Function.update files temporary (some new)) (fs.locate qfile)
        none entry = files entry := by
      rw [Function.update_of_ne heq, Function.update_of_ne hentry]
    rw [Function.update_of_ne heq, stateAfter, hrun]
    exact (keeps_move hentry heq (files entry) _ hstart).symm

/-- Every run is a run of the script's function, which does not look at single operations, on the
files other than the temporary one. -/
theorem xformFile_refines (sys : System ι) (hlocate : sys.locate = fs.locate) (files : Files ι)
    (qfile distro qlabel : Text) :
    ∃ reading replacing, ∀ run, run = xformFile
        { sys with reading := fun _ _ => reading, replacing := fun _ _ => replacing } files qfile
        distro qlabel →
      run.2 = raisedBy (fs.xformFile qfile distro qlabel) files ∧
        ∀ entry, Untouched fs files entry →
          run.1 entry = stateAfter (fs.xformFile qfile distro qlabel) files entry := by
  cases hfile : files (fs.locate qfile) with
  | none =>
      refine ⟨none, none, ?_⟩
      rintro run rfl
      have hrun : fs.xformFile qfile distro qlabel files =
          .error (.ioError (noSuchFile qfile)) files := by
        rw [FileSystem.xformFile, bind_of_ok (get_apply files), hfile]
        rfl
      rw [raisedBy_of_error hrun, stateAfter_of_error hrun, xformFile, hlocate, hfile]
      exact ⟨rfl, fun _ _ => rfl⟩
  | some text =>
      rcases xformFile_cases hfile with
        ⟨raised, files', hrun, -, hkept⟩ | ⟨temporary, out, hcreate, hout, -, hrun⟩
      · refine ⟨some raised, none, ?_⟩
        rintro run rfl
        rw [raisedBy_of_error hrun, stateAfter_of_error hrun, xformFile, hlocate, hfile]
        exact ⟨rfl, fun entry hentry => (hkept entry hentry).symm⟩
      · have hne := untouched_questions hfile temporary hcreate
        have hwhole : raisedBy (fs.xformFile qfile distro qlabel) files = none →
            movedText fs out.flatten = some out.flatten := by
          intro hnone
          rw [raisedBy, hrun] at hnone
          exact movedText_of_moved out.flatten hnone
        have hleft := stateAfter_of_replaced hne hrun
        refine ⟨none, (raisedBy (fs.xformFile qfile distro qlabel) files).map
          (·, stateAfter (fs.xformFile qfile distro qlabel) files (fs.locate qfile)), ?_⟩
        rintro run rfl
        have hupdated : ∀ entry, Untouched fs files entry →
            Function.update files (fs.locate qfile) (movedText fs out.flatten) entry =
              stateAfter (fs.xformFile qfile distro qlabel) files entry := fun entry hentry =>
          update_movedText_of_replaced hne hrun (hentry temporary hcreate)
        rw [xformFile, hlocate, hfile, hleft]
        simp only [hout]
        cases hresult : raisedBy (fs.xformFile qfile distro qlabel) files with
        | some raised => exact ⟨rfl, hupdated⟩
        | none =>
            rw [hwhole hresult] at hupdated
            exact ⟨rfl, hupdated⟩

end MetaSecurity.Questions
