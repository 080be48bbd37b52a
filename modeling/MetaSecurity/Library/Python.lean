import MetaSecurity.Library.Fields
import MetaSecurity.Library.Records
import Mathlib.Data.List.Forall2
import Mathlib.Data.List.Infix

/-!
# Strings and text files in Python

The string methods and the text mode of files that a line-oriented script uses. `lines` is the
iteration over a text file: every line keeps its newline, which the last one may lack. `Lined` says
what such a sequence of lines looks like, and `lines_flatten` reads it back after it was written.
-/

namespace Library.Python

/-- The contents of a string. -/
abbrev Text := List Char

/-- `str.isspace` of one character. -/
def isSpace (c : Char) : Bool :=
  let n := c.toNat
  (9 ≤ n && n ≤ 13) || (28 ≤ n && n ≤ 32) || (8192 ≤ n && n ≤ 8202) ||
    [0x85, 0xa0, 0x1680, 0x2028, 0x2029, 0x202f, 0x205f, 0x3000].contains n

/-- `t.strip()`. -/
def strip (t : Text) : Text := trim isSpace t

/-- `t.rstrip()`. -/
def rstrip (t : Text) : Text := t.rdropWhile isSpace

/-- `t.split()`. -/
def words (t : Text) : List Text := fields isSpace t

/-- `t.startswith(start)`. -/
def startsWith (start t : Text) : Bool := start.isPrefixOf t

/-- `t.endswith(ending)`. -/
def endsWith (ending t : Text) : Bool := ending.isSuffixOf t

/-- `part in t`. -/
def contains (part t : Text) : Bool := t.tails.any part.isPrefixOf

/-- `t.replace(old, new)` for two characters. -/
def replaceChar (old new : Char) (t : Text) : Text := t.map fun c => if c = old then new else c

/-- `(a, b) = t.split(sep)`, which raises an exception unless there are two parts. -/
def splitTwo (sep : Char) (t : Text) : Option (Text × Text) :=
  match t.splitOn sep with
  | [first, second] => some (first, second)
  | _ => none

/-- A character in `repr` of a string between the given quotes. Characters beyond ASCII are taken to
be printable. -/
def reprChar (quote c : Char) : Text :=
  if c = quote || c = '\\' then ['\\', c]
  else if c = '\n' then ['\\', 'n']
  else if c = '\r' then ['\\', 'r']
  else if c = '\t' then ['\\', 't']
  else if c.toNat < 32 || c.toNat = 127 then
    ['\\', 'x', Nat.digitChar (c.toNat / 16), Nat.digitChar (c.toNat % 16)]
  else [c]

/-- The apostrophe. -/
def apostrophe : Char := Char.ofNat 39

/-- The quotation mark. -/
def quotationMark : Char := Char.ofNat 34

/-- `repr(t)`: a string with an apostrophe and no quotation mark stands between quotation marks. -/
def reprText (t : Text) : Text :=
  let quote :=
    if t.contains apostrophe && !t.contains quotationMark then quotationMark else apostrophe
  quote :: t.flatMap (reprChar quote) ++ [quote]

/-- `t.partition(sep)[2]`. -/
def afterFirst (sep : Char) (t : Text) : Text := (t.dropWhile (· ≠ sep)).drop 1

/-- The lines of a text, each with its newline. -/
def lines : Text → List Text
  | [] => []
  | c :: t =>
      if c = '\n' then ['\n'] :: lines t
      else
        match lines t with
        | [] => [[c]]
        | line :: rest => (c :: line) :: rest

/-- What the text mode of a file makes of the line endings. -/
def universalNewlines : Text → Text
  | [] => []
  | '\r' :: '\n' :: t => '\n' :: universalNewlines t
  | c :: t => (if c = '\r' then '\n' else c) :: universalNewlines t

/-- The lines that are read from a file with the given contents. -/
def readlines (t : Text) : List Text := lines (universalNewlines t)

/-! ## Words -/

/-- A text that `split()` leaves in one piece. -/
def OneWord (t : Text) : Prop := t ≠ [] ∧ ∀ c ∈ t, isSpace c = false

/-- Words are such texts. -/
theorem oneWord_of_mem_words {t word : Text} (h : word ∈ words t) : OneWord word :=
  ⟨ne_nil_of_mem_fields h, fun _ hc => (mem_of_mem_fields h hc).2⟩

/-- A word that follows a blank at the end of a line. -/
theorem mem_words_append {word : Text} (h : OneWord word) (t : Text) :
    word ∈ words (t ++ ' ' :: word ++ ['\n']) := by
  have hlast : fields isSpace (word ++ ['\n']) = [word] := by
    rw [fields_append_of_forall (by simp [isSpace]), fields_eq_singleton h.1 h.2]
  rw [words, List.append_assoc, List.cons_append, fields_append_cons (by decide), hlast]
  exact List.mem_append_right _ List.mem_cons_self

/-- What precedes a character that is no blank is not stripped. -/
theorem rstrip_append_cons {c : Char} (hc : isSpace c = false) (front back : Text) :
    rstrip (front ++ c :: back) = front ++ c :: rstrip back := by
  induction back using List.reverseRecOn with
  | nil =>
      rw [rstrip, List.rdropWhile_concat_neg _ _ _ (by simp [hc])]
      rfl
  | append_singleton back d ih =>
      have hshift : front ++ c :: (back ++ [d]) = front ++ c :: back ++ [d] := by simp
      rw [hshift, rstrip, rstrip]
      by_cases hd : isSpace d = true
      · rw [List.rdropWhile_concat_pos _ _ _ hd, List.rdropWhile_concat_pos _ _ _ hd]
        exact ih
      · rw [List.rdropWhile_concat_neg _ _ _ hd, List.rdropWhile_concat_neg _ _ _ hd, hshift]

/-- A text with one word is that word between blanks. -/
theorem words_eq_singleton_iff {t word : Text} : words t = [word] ↔
    ∃ front back, t = front ++ word ++ back ∧ (∀ c ∈ front, isSpace c = true) ∧
      OneWord word ∧ ∀ c ∈ back, isSpace c = true := by
  constructor
  · intro h
    obtain ⟨front, back, rfl, hfront, hback⟩ := exists_of_fields_eq_cons h
    have hword : OneWord word := oneWord_of_mem_words (h ▸ List.mem_cons_self)
    refine ⟨front, back, (List.append_assoc ..).symm, hfront, hword, fun c hc => ?_⟩
    rcases hback with ⟨rfl, -⟩ | ⟨sep, rest, rfl, hsep, hrest⟩
    · cases hc
    · rcases List.mem_cons.mp hc with rfl | hc
      · exact hsep
      · by_contra hnot
        obtain ⟨field, hfield, -⟩ := exists_mem_fields hc (Bool.not_eq_true _ ▸ hnot)
        rw [hrest] at hfield
        cases hfield
  · rintro ⟨front, back, rfl, hfront, hword, hback⟩
    rw [words, fields_append_of_forall hback, fields_append_left hfront,
      fields_eq_singleton hword.1 hword.2]

/-- Blanks after a word are stripped. -/
theorem rstrip_append_blanks {front word back : Text} (hword : OneWord word)
    (hback : ∀ c ∈ back, isSpace c = true) :
    rstrip (front ++ word ++ back) = front ++ word := by
  obtain ⟨init, last, rfl⟩ := List.eq_nil_or_concat' word |>.resolve_left hword.1
  have hlast : isSpace last = false := hword.2 last (by simp)
  have hblank : rstrip back = [] := List.rdropWhile_eq_nil_iff.mpr hback
  have hshape : front ++ (init ++ [last]) ++ back = (front ++ init) ++ last :: back := by simp
  rw [hshape, rstrip_append_cons hlast, hblank]
  simp

/-! ## Parts of a text -/

/-- `part in t` looks for the part at every place. -/
theorem contains_iff {part t : Text} : contains part t = true ↔ part <:+: t := by
  simp only [contains, List.any_eq_true, List.mem_tails, List.isPrefixOf_iff_prefix]
  rw [List.infix_iff_prefix_suffix]
  exact ⟨fun ⟨tail, htail, hpart⟩ => ⟨tail, hpart, htail⟩,
    fun ⟨tail, hpart, htail⟩ => ⟨tail, htail, hpart⟩⟩

/-- A part that lacks a character does not reach over it. -/
theorem contains_append_cons {part : Text} {c : Char} (h : c ∉ part) (front back : Text) :
    contains part (front ++ c :: back) = (contains part front || contains part back) := by
  rw [Bool.eq_iff_iff, Bool.or_eq_true, contains_iff, contains_iff, contains_iff]
  constructor
  · rintro ⟨before, after, heq⟩
    rw [List.append_assoc] at heq
    rcases List.append_eq_append_iff.mp heq with ⟨rest, rfl, hrest⟩ | ⟨rest, rfl, hrest⟩
    · rcases List.append_eq_append_iff.mp hrest with ⟨more, rfl, hmore⟩ | ⟨more, rfl, hmore⟩
      · exact .inl ⟨before, more, List.append_assoc ..⟩
      · cases more with
        | nil => exact .inl ⟨before, [], by simp⟩
        | cons d more =>
            rw [List.cons_append, List.cons.injEq] at hmore
            exact absurd (by simp [hmore.1]) h
    · cases rest with
      | nil =>
          cases part with
          | nil => exact .inl (List.nil_infix)
          | cons d part =>
              rw [List.nil_append, List.cons_append, List.cons.injEq] at hrest
              exact absurd (by simp [hrest.1]) h
      | cons d rest =>
          rw [List.cons_append, List.cons.injEq] at hrest
          exact .inr ⟨rest, after, by rw [List.append_assoc, hrest.2]⟩
  · rintro (hfront | hback)
    · exact hfront.trans ⟨[], c :: back, rfl⟩
    · exact hback.trans ⟨front ++ [c], [], by simp⟩

/-- Words are parts. -/
theorem contains_of_mem_words {t word : Text} (h : word ∈ words t) : contains word t = true :=
  contains_iff.mpr (infix_of_mem_fields h)

/-! ## Splitting in two -/

/-- There are two parts when the separator occurs once. -/
theorem splitTwo_eq_some {sep : Char} {t first second : Text} :
    splitTwo sep t = some (first, second) ↔
      t = first ++ sep :: second ∧ sep ∉ first ∧ sep ∉ second := by
  constructor
  · intro h
    by_cases hmem : sep ∈ t
    · obtain ⟨front, rest, rfl, hfront⟩ := List.eq_append_cons_of_mem hmem
      rw [splitTwo, List.splitOn_append_cons_self_of_not_mem hfront] at h
      by_cases hrest : sep ∈ rest
      · obtain ⟨middle, last, rfl, hmiddle⟩ := List.eq_append_cons_of_mem hrest
        rw [List.splitOn_append_cons_self_of_not_mem hmiddle] at h
        cases hsplit : last.splitOn sep with
        | nil => exact absurd hsplit (List.splitOn_ne_nil sep last)
        | cons piece pieces => simp [hsplit] at h
      · rw [List.splitOn_eq_singleton hrest] at h
        cases h
        exact ⟨rfl, hfront, hrest⟩
    · rw [splitTwo, List.splitOn_eq_singleton hmem] at h
      cases h
  · rintro ⟨rfl, hfirst, hsecond⟩
    rw [splitTwo, List.splitOn_append_cons_self_of_not_mem hfirst,
      List.splitOn_eq_singleton hsecond]

/-- What follows the first separator. -/
theorem afterFirst_append {sep : Char} {front : Text} (h : sep ∉ front) (back : Text) :
    afterFirst sep (front ++ sep :: back) = back := by
  have hall : ∀ c ∈ front, decide (c ≠ sep) = true :=
    fun c hc => decide_eq_true fun heq => h (heq ▸ hc)
  rw [afterFirst, List.dropWhile_append_of_pos hall, List.dropWhile_cons_of_neg (by simp)]
  rfl

/-- The second of two parts. -/
theorem afterFirst_of_splitTwo {sep : Char} {t first second : Text}
    (h : splitTwo sep t = some (first, second)) : afterFirst sep t = second := by
  obtain ⟨rfl, hfirst, -⟩ := splitTwo_eq_some.mp h
  exact afterFirst_append hfirst second

/-! ## Lines -/

/-- A sequence of lines as it is read from a file: only the last one may lack its newline. -/
inductive Lined : List Text → Prop where
  | nil : Lined []
  | last {line : Text} : line ≠ [] → '\n' ∉ line → Lined [line]
  | cons {body : Text} {rest : List Text} : '\n' ∉ body → Lined rest →
      Lined ((body ++ ['\n']) :: rest)

/-- The first line of a text. -/
theorem lines_append_cons {body : Text} (h : '\n' ∉ body) (t : Text) :
    lines (body ++ '\n' :: t) = (body ++ ['\n']) :: lines t := by
  induction body with
  | nil => simp [lines]
  | cons c body ih =>
      have hc : c ≠ '\n' := fun heq => h (heq ▸ List.mem_cons_self)
      rw [List.cons_append, lines, if_neg hc, ih fun hmem => h (List.mem_cons_of_mem c hmem)]
      rfl

/-- A text without newlines is one line. -/
theorem lines_of_not_mem {t : Text} (hne : t ≠ []) (h : '\n' ∉ t) : lines t = [t] := by
  induction t with
  | nil => exact absurd rfl hne
  | cons c t ih =>
      have hc : c ≠ '\n' := fun heq => h (heq ▸ List.mem_cons_self)
      rw [lines, if_neg hc]
      cases t with
      | nil => rfl
      | cons d t =>
          rw [ih (List.cons_ne_nil d t) fun hmem => h (List.mem_cons_of_mem c hmem)]

/-- What is written line by line is read back. -/
theorem lines_flatten {ls : List Text} (h : Lined ls) : lines ls.flatten = ls := by
  induction h with
  | nil => rfl
  | last hne hline =>
      rw [List.flatten_singleton]
      exact lines_of_not_mem hne hline
  | cons hbody _ ih =>
      rw [List.flatten_cons, List.append_assoc, List.singleton_append, lines_append_cons hbody, ih]

/-- The lines of a text make up the text, and are lines. -/
theorem lines_spec (t : Text) : (lines t).flatten = t ∧ Lined (lines t) := by
  induction t using recordsInduction '\n' with
  | remainder t h =>
      cases t with
      | nil => exact ⟨rfl, .nil⟩
      | cons c t =>
          rw [lines_of_not_mem (List.cons_ne_nil c t) h]
          exact ⟨List.flatten_singleton, .last (List.cons_ne_nil c t) h⟩
  | record body t h ih =>
      rw [lines_append_cons h]
      refine ⟨?_, .cons h ih.2⟩
      rw [List.flatten_cons, ih.1, List.append_assoc, List.singleton_append]

/-- Replacing lines by lines that end in a newline. -/
theorem Lined.replace {ls ls' : List Text} (h : Lined ls)
    (hreplaced : List.Forall₂ (fun line line' =>
      line' = line ∨ ∃ body, '\n' ∉ body ∧ line' = body ++ ['\n']) ls ls') : Lined ls' := by
  induction h generalizing ls' with
  | nil =>
      cases hreplaced
      exact .nil
  | last hne hline =>
      obtain ⟨line', rest, hfirst, hrest, rfl⟩ := List.forall₂_cons_left_iff.mp hreplaced
      cases hrest
      rcases hfirst with rfl | ⟨body, hbody, rfl⟩
      · exact .last hne hline
      · exact .cons hbody .nil
  | cons hbody _ ih =>
      obtain ⟨line', rest, hfirst, hrest, rfl⟩ := List.forall₂_cons_left_iff.mp hreplaced
      rcases hfirst with rfl | ⟨body', hbody', rfl⟩
      · exact .cons hbody (ih hrest)
      · exact .cons hbody' (ih hrest)

/-! ## Line endings -/

/-- No carriage return is left. -/
theorem not_mem_universalNewlines (t : Text) : '\r' ∉ universalNewlines t := by
  fun_induction universalNewlines t with
  | case1 => simp
  | case2 t ih => simp [ih]
  | case3 c t _ ih =>
      rw [List.mem_cons, not_or]
      refine ⟨?_, ih⟩
      split
      · decide
      · rename_i hc
        exact Ne.symm hc

/-- Newlines are left as they are. -/
theorem universalNewlines_of_not_mem {t : Text} (h : '\r' ∉ t) : universalNewlines t = t := by
  fun_induction universalNewlines t with
  | case1 => rfl
  | case2 t ih => exact absurd List.mem_cons_self h
  | case3 c t _ ih =>
      have hc : c ≠ '\r' := fun heq => h (heq ▸ List.mem_cons_self)
      rw [if_neg hc, ih fun hmem => h (List.mem_cons_of_mem c hmem)]

/-- What precedes the first carriage return is left as it is. -/
theorem universalNewlines_append {front : Text} (h : '\r' ∉ front) (t : Text) :
    universalNewlines (front ++ t) = front ++ universalNewlines t := by
  induction front with
  | nil => rfl
  | cons c front ih =>
      have hc : c ≠ '\r' := fun heq => h (heq ▸ List.mem_cons_self)
      have hfront := ih fun hmem => h (List.mem_cons_of_mem c hmem)
      rw [List.cons_append, universalNewlines, hfront, if_neg hc]
      · rfl
      · exact fun t' heq _ => hc heq

/-- The first line that is read, when a newline ends it. -/
theorem readlines_newline {body : Text} (h : '\n' ∉ body) (hplain : '\r' ∉ body) (t : Text) :
    readlines (body ++ '\n' :: t) = (body ++ ['\n']) :: readlines t := by
  rw [readlines, universalNewlines_append hplain, universalNewlines, ite_self,
    lines_append_cons h]
  · rfl
  · exact fun t' heq _ => absurd heq (by decide)

/-- A carriage return and a newline end the line together. -/
theorem readlines_both {body : Text} (h : '\n' ∉ body) (hplain : '\r' ∉ body) (t : Text) :
    readlines (body ++ '\r' :: '\n' :: t) = (body ++ ['\n']) :: readlines t := by
  rw [readlines, universalNewlines_append hplain, universalNewlines, lines_append_cons h]
  rfl

/-- A carriage return alone ends the line, too. -/
theorem readlines_return {body : Text} (h : '\n' ∉ body) (hplain : '\r' ∉ body) {t : Text}
    (ht : t.head? ≠ some '\n') :
    readlines (body ++ '\r' :: t) = (body ++ ['\n']) :: readlines t := by
  rw [readlines, universalNewlines_append hplain, universalNewlines, if_pos rfl,
    lines_append_cons h]
  · rfl
  · rintro t' - rfl
    exact ht rfl

/-- A newline separates what is read before it from what is read behind it. -/
theorem readlines_append {t : Text} (h : '\n' ∉ t) (u : Text) :
    readlines (t ++ '\n' :: u) = readlines (t ++ ['\n']) ++ readlines u := by
  induction t using recordsInduction '\r' with
  | remainder t hplain =>
      rw [readlines_newline h hplain, readlines_newline h hplain]
      rfl
  | record body t hplain ih =>
      have hbody : '\n' ∉ body := fun hmem => h (List.mem_append_left _ hmem)
      have hrest : '\n' ∉ t := fun hmem => h (by simp [hmem])
      rw [List.append_assoc, List.append_assoc, List.cons_append, List.cons_append]
      cases t with
      | nil =>
          rw [List.nil_append, List.nil_append, readlines_both hbody hplain,
            readlines_both hbody hplain]
          rfl
      | cons c t =>
          have hc : c ≠ '\n' := fun heq => hrest (heq ▸ List.mem_cons_self)
          have hhead : ∀ back : Text, (c :: t ++ back).head? ≠ some '\n' := by simp [hc]
          rw [readlines_return hbody hplain (hhead _), readlines_return hbody hplain (hhead _),
            ih hrest]
          rfl

/-- The lines that are read have no carriage returns. -/
theorem not_mem_of_mem_readlines {t line : Text} (h : line ∈ readlines t) : '\r' ∉ line := by
  intro hmem
  refine not_mem_universalNewlines t ?_
  rw [← (lines_spec (universalNewlines t)).1]
  exact List.mem_flatten_of_mem h hmem

/-- Lines without carriage returns are read back. -/
theorem readlines_flatten {ls : List Text} (h : Lined ls) (hplain : ∀ line ∈ ls, '\r' ∉ line) :
    readlines ls.flatten = ls := by
  have hflat : '\r' ∉ ls.flatten := by
    intro hmem
    obtain ⟨line, hline, hc⟩ := List.mem_flatten.mp hmem
    exact hplain line hline hc
  rw [readlines, universalNewlines_of_not_mem hflat, lines_flatten h]

end Library.Python
