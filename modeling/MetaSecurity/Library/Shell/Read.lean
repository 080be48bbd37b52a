import MetaSecurity.Library.Fields
import MetaSecurity.Library.Records

/-!
# The shell's `read`

POSIX `read` without `-r`, as a reader of whole files. A backslash quotes the character after
it, a quoted newline joins two lines, and an unterminated last line makes `read` fail, so a
`while read` loop never sees it. Every delivered character remembers whether it was quoted,
because quoting protects it from being trimmed or taken as a delimiter.

`readFrom_record` says what one physical line contributes; with `recordsInduction` it is the
way to reason about a `while read` loop.
-/

namespace Shell

open Library

/-- A text is a list of characters. -/
abbrev Text := List Char

/-- A character delivered by `read`, with whether a backslash quoted it. -/
abbrev Mark := Char × Bool

/-- The characters of the default `IFS`. -/
def isIfs (c : Char) : Bool :=
  c = ' ' || c = '\t' || c = '\n'

/-- `readFrom quoted current t` lists the logical lines of `t` on which `read` succeeds, when the
characters in `current` (last one first) have already been taken and `quoted` says whether a
backslash is pending. -/
def readFrom : Bool → List Mark → Text → List (List Mark)
  | _, _, [] => []
  | true, current, c :: cs =>
      if c = '\n' then readFrom false current cs else readFrom false ((c, true) :: current) cs
  | false, current, c :: cs =>
      if c = '\n' then current.reverse :: readFrom false [] cs
      else if c = '\\' then readFrom true current cs
      else readFrom false ((c, false) :: current) cs

/-- The logical lines that a `while read` loop iterates over. -/
def readLines (t : Text) : List (List Mark) :=
  readFrom false [] t

/-- The characters that a physical line contributes to its logical line. -/
def marks : Bool → Text → List Mark
  | _, [] => []
  | true, c :: cs => (c, true) :: marks false cs
  | false, c :: cs => if c = '\\' then marks true cs else (c, false) :: marks false cs

/-- The physical line ends in a backslash that quotes its newline. -/
def quotesNewline : Bool → Text → Bool
  | quoted, [] => quoted
  | true, _ :: cs => quotesNewline false cs
  | false, c :: cs => quotesNewline (c = '\\') cs

/-- A line that quotes its newline is continued by the next one; any other completes a logical
line. -/
theorem readFrom_record {line : Text} (h : '\n' ∉ line) (quoted : Bool) (current : List Mark)
    (rest : Text) :
    readFrom quoted current (line ++ '\n' :: rest) =
      if quotesNewline quoted line then
        readFrom false ((marks quoted line).reverse ++ current) rest
      else (current.reverse ++ marks quoted line) :: readFrom false [] rest := by
  induction line generalizing quoted current with
  | nil => cases quoted <;> simp [readFrom, quotesNewline, marks]
  | cons c cs ih =>
      have hc : c ≠ '\n' := fun heq => h (by simp [heq])
      have hcs : '\n' ∉ cs := fun hmem => h (List.mem_cons_of_mem _ hmem)
      cases quoted with
      | true => simp [readFrom, hc, quotesNewline, marks, ih hcs]
      | false =>
          by_cases hslash : c = '\\'
          · simp [readFrom, hslash, quotesNewline, marks, ih hcs]
          · simp [readFrom, hc, hslash, quotesNewline, marks, ih hcs]

/-- `read` fails on an unterminated line. -/
theorem readFrom_remainder {line : Text} (h : '\n' ∉ line) (quoted : Bool) (current : List Mark) :
    readFrom quoted current line = [] := by
  induction line generalizing quoted current with
  | nil => rfl
  | cons c cs ih =>
      have hc : c ≠ '\n' := fun heq => h (by simp [heq])
      have hcs : '\n' ∉ cs := fun hmem => h (List.mem_cons_of_mem _ hmem)
      cases quoted with
      | true => simp [readFrom, hc, ih hcs]
      | false => by_cases hslash : c = '\\' <;> simp [readFrom, hc, hslash, ih hcs]

/-- The part of a line before its first backslash is delivered as it stands. -/
theorem marks_append_plain {front : Text} (h : '\\' ∉ front) (line : Text) :
    marks false (front ++ line) = (front.map fun c => (c, false)) ++ marks false line := by
  induction front with
  | nil => rfl
  | cons c cs ih =>
      have hc : c ≠ '\\' := fun heq => h (by simp [heq])
      simp [marks, hc, ih fun hmem => h (List.mem_cons_of_mem _ hmem)]

/-- Without backslashes, a line is delivered as it stands. -/
theorem marks_plain {line : Text} (h : '\\' ∉ line) :
    marks false line = line.map fun c => (c, false) := by
  simpa [marks] using marks_append_plain h []

theorem quotesNewline_plain {line : Text} (h : '\\' ∉ line) : quotesNewline false line = false := by
  induction line with
  | nil => rfl
  | cons c cs ih =>
      have hc : c ≠ '\\' := fun heq => h (by simp [heq])
      simp [quotesNewline, hc, ih fun hmem => h (List.mem_cons_of_mem _ hmem)]

/-- A terminated line without backslashes is a logical line of its own. -/
theorem readLines_plain {line : Text} (hnl : '\n' ∉ line) (hslash : '\\' ∉ line) (rest : Text) :
    readLines (line ++ '\n' :: rest) = (line.map fun c => (c, false)) :: readLines rest := by
  simp [readLines, readFrom_record hnl, quotesNewline_plain hslash, marks_plain hslash]

/-- What `read` with a single variable stores: the line without its unquoted leading and
trailing white space. -/
def readValue (line : List Mark) : Text :=
  (trim (fun m => isIfs m.1 && !m.2) line).map Prod.fst

private theorem dropWhile_marks (line : Text) :
    (line.map fun c => (c, false)).dropWhile (fun m => isIfs m.1 && !m.2) =
      (line.dropWhile isIfs).map fun c => (c, false) := by
  induction line with
  | nil => rfl
  | cons c cs ih =>
      cases hc : isIfs c with
      | true => simp [hc, ih]
      | false => simp [hc]

/-- On a line without backslashes `read` only trims. -/
theorem readValue_plain (line : Text) :
    readValue (line.map fun c => (c, false)) = trim isIfs line := by
  have hrev : ∀ cs : Text, (cs.map fun c => (c, false)).reverse =
      cs.reverse.map fun c => (c, false) := fun cs => by simp
  simp only [readValue, trim, List.rdropWhile, dropWhile_marks, hrev]
  simp [Function.comp_def]

/-- What `read KEY VAL` stores under `IFS=:`, the key part: everything before the first unquoted
colon. -/
def readKey (line : List Mark) : Text :=
  (line.takeWhile fun m => !(m.1 == ':' && !m.2)).map Prod.fst

/-- The value part of `read KEY VAL` under `IFS=:`: everything after the first unquoted colon,
except that a single colon that closes the value is a delimiter too. -/
def readRest (line : List Mark) : Text :=
  let rest := (line.dropWhile fun m => !(m.1 == ':' && !m.2)).tail
  let closing := rest.dropWhile fun m => !(m.1 == ':' && !m.2)
  (if closing.length = 1 then rest.dropLast else rest).map Prod.fst

/-- A line without backslashes is cut at its first colon. -/
theorem readKey_plain {key : Text} (hkey : ':' ∉ key) (val : Text) :
    readKey ((key ++ ':' :: val).map fun c => (c, false)) = key := by
  induction key with
  | nil => simp [readKey]
  | cons c cs ih =>
      have hc : c ≠ ':' := fun heq => hkey (by simp [heq])
      have hcs := ih fun hmem => hkey (List.mem_cons_of_mem _ hmem)
      simp only [readKey, List.cons_append, List.map_cons] at hcs ⊢
      rw [List.takeWhile_cons_of_pos (by simp [hc]), List.map_cons, hcs]

theorem readRest_plain {key val : Text} (hkey : ':' ∉ key) (hval : ':' ∉ val) :
    readRest ((key ++ ':' :: val).map fun c => (c, false)) = val := by
  have hfree : ∀ t : Text, ':' ∉ t →
      ∀ m ∈ t.map (fun c => (c, false)), (!(m.1 == ':' && !m.2)) = true := by
    intro t ht m hm
    obtain ⟨c, hc, rfl⟩ := List.mem_map.mp hm
    have hne : c ≠ ':' := fun heq => ht (heq ▸ hc)
    simp [hne]
  have hclosing : (val.map fun c => (c, false)).dropWhile (fun m => !(m.1 == ':' && !m.2)) = [] :=
    List.dropWhile_eq_nil_iff.mpr (hfree val hval)
  rw [readRest, List.map_append, List.dropWhile_append_of_pos (hfree key hkey)]
  simp only [List.map_cons, beq_self_eq_true, Bool.not_false, Bool.and_self, Bool.not_true,
    Bool.false_eq_true, not_false_eq_true, List.dropWhile_cons_of_neg, List.tail_cons, hclosing]
  simp [Function.comp_def]

end Shell
