import MetaSecurity.Questions.Effect

/-!
# The format of the configuration

A configuration lists comments and answers `module.question="value"`, one on each line. `get_config`
splits the whole line at equals signs, the value with it, and `readsAnswers_iff` says which values
that leaves in one piece. Files are read in text mode, so a carriage return in an item ends a line.
-/

namespace MetaSecurity.Questions

open Library Python

/-- The characters of names: letters, digits and underscores. Everything beyond ASCII may be a
letter. -/
def isNameChar (c : Char) : Bool :=
  c.isAlphanum || c = '_' || 128 ≤ c.toNat

/-- A comment is one line that begins with a number sign. -/
structure Comment where
  text : Text
  start : startsWith "#".toList text = true
  oneLine : '\n' ∉ text

/-- An answer, with any value that can be written between quotes on one line. -/
structure Answer where
  fname : Text
  ident : Text
  value : Text
  fnameChars : ∀ c ∈ fname, isNameChar c = true
  identChars : ∀ c ∈ ident, isNameChar c = true
  oneLine : '\n' ∉ value
  unquoted : '"' ∉ value

/-- An item of the configuration. -/
inductive Item where
  | comment (comment : Comment)
  | answer (answer : Answer)

/-- The line of an answer up to its value. -/
def Answer.front (a : Answer) : Text := a.fname ++ '.' :: (a.ident ++ ['=', '"'])

/-- The line of an item. -/
def Item.line : Item → Text
  | .comment c => c.text
  | .answer a => a.front ++ (a.value ++ ['"'])

/-- The coordinates of an answer. -/
def Item.coordinates : Item → Option Coordinates
  | .comment _ => none
  | .answer a => some (a.fname, a.ident)

/-- The file that lists the items. -/
def configText (items : List Item) : Text := terminate '\n' (items.map Item.line)

/-- Reading the file raises no error and yields the coordinates of the answers, in order. -/
def ReadsAnswers (items : List Item) : Prop :=
  getConfig (readlines (configText items)) = (items.filterMap Item.coordinates, none)

/-- Behind each carriage return the text ends or goes on with a comment. -/
def ReturnsHarmless (t : Text) : Prop :=
  ∀ front back, t = front ++ '\r' :: back → back = [] ∨ back.head? = some '#'

/-- The value has no equals sign before its first carriage return, and what follows carriage returns
in the item is a comment. -/
def Item.Tame : Item → Prop
  | .comment c => ReturnsHarmless c.text
  | .answer a => '=' ∉ a.value.takeWhile (· ≠ '\r') ∧ ReturnsHarmless (a.value ++ ['"'])

/-! ## Carriage returns -/

theorem returnsHarmless_of_not_mem {t : Text} (h : '\r' ∉ t) : ReturnsHarmless t := by
  rintro front back rfl
  exact absurd (by simp) h

/-- The first carriage return and the others. -/
theorem returnsHarmless_append {body : Text} (h : '\r' ∉ body) (t : Text) :
    ReturnsHarmless (body ++ '\r' :: t) ↔
      (t = [] ∨ t.head? = some '#') ∧ ReturnsHarmless t := by
  constructor
  · intro hall
    refine ⟨hall body t rfl, ?_⟩
    rintro front back rfl
    exact hall (body ++ '\r' :: front) back (by simp)
  · rintro ⟨hfirst, hrest⟩ front back heq
    rcases List.append_eq_append_iff.mp heq with ⟨more, rfl, hmore⟩ | ⟨more, rfl, hmore⟩
    · cases more with
      | nil =>
          obtain ⟨-, rfl⟩ := List.cons.inj hmore
          exact hfirst
      | cons c more =>
          obtain ⟨-, rfl⟩ := List.cons.inj hmore
          exact hrest more back rfl
    · cases more with
      | nil =>
          obtain ⟨-, rfl⟩ := List.cons.inj hmore
          exact hfirst
      | cons c more =>
          obtain ⟨rfl, -⟩ := List.cons.inj hmore
          exact absurd (by simp) h

/-- Text without carriage returns does not matter. -/
theorem returnsHarmless_append_left {front : Text} (h : '\r' ∉ front) (t : Text) :
    ReturnsHarmless (front ++ t) ↔ ReturnsHarmless t := by
  by_cases hmem : '\r' ∈ t
  · obtain ⟨body, rest, rfl, hbody⟩ := List.eq_append_cons_of_mem hmem
    have hboth : '\r' ∉ front ++ body := by simp [h, hbody]
    rw [← List.append_assoc, returnsHarmless_append hboth, returnsHarmless_append hbody]
  · exact iff_of_true (returnsHarmless_of_not_mem (by simp [h, hmem]))
      (returnsHarmless_of_not_mem hmem)

/-- A comment begins with a number sign. -/
theorem isSetting_eq_false_iff {line : Text} : isSetting line = false ↔ line.head? = some '#' := by
  cases line with
  | nil => simp [isSetting, startsWith]
  | cons c line =>
      have hstart : startsWith "#".toList (c :: line) = ('#' == c) := Bool.and_true _
      rw [isSetting, hstart, List.head?_cons, Option.some.injEq, Bool.not_eq_false', beq_iff_eq]
      exact eq_comm

/-- A text that is read as comments only. -/
theorem forall_comment_iff {t : Text} (h : '\n' ∉ t) :
    (∀ line ∈ readlines (t ++ ['\n']), isSetting line = false) ↔
      t.head? = some '#' ∧ ReturnsHarmless t := by
  have hhead : ∀ body : Text, (body ++ ['\n']).head? = some '#' ↔ body.head? = some '#' := by
    intro body
    cases body <;> simp
  induction t using recordsInduction '\r' with
  | remainder t hplain =>
      have hread := readlines_newline h hplain []
      rw [hread, List.forall_mem_cons, isSetting_eq_false_iff, hhead]
      exact and_congr_right fun _ =>
        iff_of_true (by simp [readlines, universalNewlines, lines])
          (returnsHarmless_of_not_mem hplain)
  | record body t hplain ih =>
      have hbody : '\n' ∉ body := fun hmem => h (List.mem_append_left _ hmem)
      have hrest : '\n' ∉ t := fun hmem => h (by simp [hmem])
      have hfirst : (body ++ '\r' :: t).head? = some '#' ↔ body.head? = some '#' := by
        cases body <;> simp
      rw [hfirst, returnsHarmless_append hplain, List.append_assoc, List.cons_append]
      cases t with
      | nil =>
          rw [List.nil_append, readlines_both hbody hplain, List.forall_mem_cons,
            isSetting_eq_false_iff, hhead]
          exact and_congr_right fun _ =>
            iff_of_true (by simp [readlines, universalNewlines, lines])
              ⟨.inl rfl, returnsHarmless_of_not_mem (by simp)⟩
      | cons c t =>
          have hc : c ≠ '\n' := fun heq => hrest (heq ▸ List.mem_cons_self)
          have hback : (∀ line ∈ readlines (c :: t ++ ['\n']), isSetting line = false) ↔
              (c :: t).head? = some '#' ∧ ReturnsHarmless (c :: t) := ih hrest
          rw [readlines_return hbody hplain (by simpa using hc), List.forall_mem_cons,
            isSetting_eq_false_iff, hhead, hback]
          simp

/-- The lines that an item is read as: its text up to the first carriage return, and the rest. -/
theorem exists_readlines {t : Text} (h : '\n' ∉ t) :
    ∃ rest, readlines (t ++ ['\n']) = (t.takeWhile (· ≠ '\r') ++ ['\n']) :: rest ∧
      ((∀ line ∈ rest, isSetting line = false) ↔ ReturnsHarmless t) := by
  by_cases hmem : '\r' ∈ t
  · obtain ⟨body, back, rfl, hplain⟩ := List.eq_append_cons_of_mem hmem
    have hbody : '\n' ∉ body := fun hmem => h (List.mem_append_left _ hmem)
    have hback : '\n' ∉ back := fun hmem => h (by simp [hmem])
    have hall : ∀ c ∈ body, decide (c ≠ '\r') = true :=
      fun c hc => decide_eq_true fun heq => hplain (heq ▸ hc)
    have htake : (body ++ '\r' :: back).takeWhile (· ≠ '\r') = body := by
      rw [List.takeWhile_append_of_pos hall]
      simp
    rw [htake, returnsHarmless_append hplain, List.append_assoc, List.cons_append]
    cases back with
    | nil =>
        refine ⟨[], readlines_both hbody hplain [], ?_⟩
        exact iff_of_true (by simp) ⟨.inl rfl, returnsHarmless_of_not_mem (by simp)⟩
    | cons c back =>
        have hc : c ≠ '\n' := fun heq => hback (heq ▸ List.mem_cons_self)
        refine ⟨_, readlines_return hbody hplain (by simpa using hc), ?_⟩
        rw [forall_comment_iff hback]
        simp
  · refine ⟨[], ?_, iff_of_true (by simp) (returnsHarmless_of_not_mem hmem)⟩
    have hall : ∀ c ∈ t, decide (c ≠ '\r') = true :=
      fun c hc => decide_eq_true fun heq => hmem (heq ▸ hc)
    have htake : t.takeWhile (· ≠ '\r') = t := List.takeWhile_eq_self_iff.mpr hall
    rw [htake]
    exact readlines_newline h hmem []

/-! ## Items -/

theorem getConfig_comment {line : Text} (h : isSetting line = false) (rest : List Text) :
    getConfig (line :: rest) = getConfig rest := by
  rw [getConfig, if_neg (by simp [h])]

theorem getConfig_ok {line : Text} {pair : Coordinates} (h : isSetting line = true)
    (hok : coordinates line = .ok pair) (rest : List Text) :
    getConfig (line :: rest) = (pair :: (getConfig rest).1, (getConfig rest).2) := by
  rw [getConfig, if_pos h, hok]

theorem getConfig_error {line : Text} {e : ValueError} (h : isSetting line = true)
    (herror : coordinates line = .error e) (rest : List Text) :
    getConfig (line :: rest) = ([], some e) := by
  rw [getConfig, if_pos h, herror]

/-- Lines without errors are followed by the others, and an error ends what is read. -/
theorem getConfig_append (ls ls' : List Text) :
    getConfig (ls ++ ls') =
      if (getConfig ls).2 = none then ((getConfig ls).1 ++ (getConfig ls').1, (getConfig ls').2)
      else getConfig ls := by
  induction ls with
  | nil => rfl
  | cons line rest ih =>
      rw [List.cons_append]
      cases hsetting : isSetting line with
      | false => rw [getConfig_comment hsetting, getConfig_comment hsetting, ih]
      | true =>
          cases hcoordinates : coordinates line with
          | error e =>
              rw [getConfig_error hsetting hcoordinates, getConfig_error hsetting hcoordinates]
              rfl
          | ok pair =>
              rw [getConfig_ok hsetting hcoordinates, getConfig_ok hsetting hcoordinates, ih]
              split <;> rfl

/-- Nothing is read of comments only. -/
theorem getConfig_eq_nil_iff {ls : List Text} :
    getConfig ls = ([], none) ↔ ∀ line ∈ ls, isSetting line = false := by
  induction ls with
  | nil => simp [getConfig]
  | cons line rest ih =>
      rw [List.forall_mem_cons]
      cases hsetting : isSetting line with
      | false => simp [getConfig_comment hsetting, ih]
      | true =>
          cases hcoordinates : coordinates line with
          | error e => simp [getConfig_error hsetting hcoordinates]
          | ok pair => simp [getConfig_ok hsetting hcoordinates]

/-- What is read of an item. -/
def Item.read (item : Item) : List Coordinates × Option ValueError :=
  getConfig (readlines (item.line ++ ['\n']))

theorem not_mem_of_nameChars {t : Text} (h : ∀ c ∈ t, isNameChar c = true) {d : Char}
    (hd : isNameChar d = false) : d ∉ t := by
  intro hmem
  rw [h d hmem] at hd
  cases hd

/-- The part before the value has no line ending. -/
theorem Answer.not_mem_front (a : Answer) {d : Char} (hname : isNameChar d = false)
    (hd : d ∉ ['.', '=', '"']) : d ∉ a.front := by
  simp only [List.mem_cons, List.not_mem_nil, or_false, not_or] at hd
  simp [Answer.front, not_mem_of_nameChars a.fnameChars hname,
    not_mem_of_nameChars a.identChars hname, hd]

theorem Item.oneLine (item : Item) : '\n' ∉ item.line := by
  cases item with
  | comment c => exact c.oneLine
  | answer a =>
      have hfront : '\n' ∉ a.front := a.not_mem_front (by decide) (by decide)
      simp [Item.line, hfront, a.oneLine]

/-- An answer is a setting. -/
theorem Answer.isSetting_append (a : Answer) (t : Text) : isSetting (a.front ++ t) = true := by
  have hfront : '#' ∉ a.front := a.not_mem_front (by decide) (by decide)
  rw [← Bool.not_eq_false, isSetting_eq_false_iff]
  intro hhead
  cases hname : a.front with
  | nil => simp [Answer.front] at hname
  | cons c front =>
      rw [hname, List.cons_append, List.head?_cons, Option.some.injEq] at hhead
      rw [hname, hhead] at hfront
      exact hfront List.mem_cons_self

/-- The coordinates of an answer are found when its equals sign is the only one. -/
theorem Answer.coordinates_append (a : Answer) {t : Text} (h : '=' ∉ t) :
    coordinates (a.front ++ t) = .ok (a.fname, a.ident) := by
  have hident : '=' ∉ a.fname ++ '.' :: a.ident := by
    simp [not_mem_of_nameChars a.fnameChars (d := '=') (by decide),
      not_mem_of_nameChars a.identChars (d := '=') (by decide)]
  have hline : splitTwo '=' (a.front ++ t) = some (a.fname ++ '.' :: a.ident, '"' :: t) :=
    splitTwo_eq_some.mpr ⟨by simp [Answer.front], hident, by simp [h]⟩
  have hcoord : splitTwo '.' (a.fname ++ '.' :: a.ident) = some (a.fname, a.ident) :=
    splitTwo_eq_some.mpr ⟨rfl, not_mem_of_nameChars a.fnameChars (by decide),
      not_mem_of_nameChars a.identChars (by decide)⟩
  simp only [coordinates, hline, hcoord]

/-- A second equals sign is an error. -/
theorem Answer.coordinates_error (a : Answer) {t : Text} (h : '=' ∈ t) :
    ∃ e, coordinates (a.front ++ t) = .error e := by
  have hline : splitTwo '=' (a.front ++ t) = none := by
    rw [Option.eq_none_iff_forall_ne_some]
    rintro ⟨first, second⟩ hsplit
    obtain ⟨heq, hfirst, hsecond⟩ := splitTwo_eq_some.mp hsplit
    have hcount : (a.front ++ t).count '=' = 1 := by
      rw [heq, List.count_append, List.count_cons_self, List.count_eq_zero.mpr hfirst,
        List.count_eq_zero.mpr hsecond]
    have hfront : 0 < a.front.count '=' := List.count_pos_iff.mpr (by simp [Answer.front])
    have ht : 0 < t.count '=' := List.count_pos_iff.mpr h
    rw [List.count_append] at hcount
    omega
  exact ⟨_, by simp only [coordinates, hline]; rfl⟩

/-- The quote at the end of a value is no equals sign. -/
theorem mem_takeWhile_quote {value : Text} :
    '=' ∈ (value ++ ['"']).takeWhile (· ≠ '\r') ↔ '=' ∈ value.takeWhile (· ≠ '\r') := by
  induction value with
  | nil => simp
  | cons c value ih =>
      by_cases hc : c = '\r'
      · simp [hc]
      · rw [List.cons_append, List.takeWhile_cons_of_pos (by simpa using hc),
          List.takeWhile_cons_of_pos (by simpa using hc), List.mem_cons, List.mem_cons, ih]

/-- What is read of an item without an error starts with its coordinates, and nothing follows them
exactly when the item is tame. -/
theorem Item.read_spec (item : Item) :
    (item.read.2 = none → ∃ extra, item.read.1 = item.coordinates.toList ++ extra) ∧
      (item.read = (item.coordinates.toList, none) ↔ item.Tame) := by
  obtain ⟨rest, hread, hrest⟩ := exists_readlines item.oneLine
  rw [Item.read, hread]
  cases item with
  | comment c =>
      have hcomment : isSetting (c.text.takeWhile (· ≠ '\r') ++ ['\n']) = false := by
        obtain ⟨t, ht⟩ := List.isPrefixOf_iff_prefix.mp c.start
        rw [isSetting_eq_false_iff, ← ht]
        rfl
      have hnone : getConfig rest = ([], none) ↔ ReturnsHarmless c.text :=
        getConfig_eq_nil_iff.trans hrest
      rw [Item.line, getConfig_comment hcomment]
      exact ⟨fun _ => ⟨_, rfl⟩, hnone⟩
  | answer a =>
      have hfront : '\r' ∉ a.front := a.not_mem_front (by decide) (by decide)
      have hall : ∀ c ∈ a.front, decide (c ≠ '\r') = true :=
        fun c hc => decide_eq_true fun heq => hfront (heq ▸ hc)
      have hnone : getConfig rest = ([], none) ↔ ReturnsHarmless (a.value ++ ['"']) := by
        rw [getConfig_eq_nil_iff, hrest, Item.line, returnsHarmless_append_left hfront]
      have hequals : '=' ∈ (a.value ++ ['"']).takeWhile (· ≠ '\r') ++ ['\n'] ↔
          '=' ∈ a.value.takeWhile (· ≠ '\r') := by
        rw [List.mem_append, mem_takeWhile_quote]
        simp
      rw [Item.line, List.takeWhile_append_of_pos hall, List.append_assoc, Item.Tame, ← hnone,
        ← hequals]
      have hsetting := a.isSetting_append ((a.value ++ ['"']).takeWhile (· ≠ '\r') ++ ['\n'])
      by_cases hmem : '=' ∈ (a.value ++ ['"']).takeWhile (· ≠ '\r') ++ ['\n']
      · obtain ⟨e, herror⟩ := a.coordinates_error hmem
        rw [getConfig_error hsetting herror]
        exact ⟨nofun, iff_of_false nofun fun h => h.1 hmem⟩
      · rw [getConfig_ok hsetting (a.coordinates_append hmem)]
        refine ⟨fun _ => ⟨_, rfl⟩, ?_⟩
        rw [Item.coordinates, Option.toList_some, and_iff_right hmem, Prod.mk.injEq,
          List.cons.injEq, and_iff_right rfl]
        exact Prod.mk.injEq .. ▸ Iff.rfl

/-! ## Whole configurations -/

/-- What is read of a configuration. -/
def readAll (items : List Item) : List Coordinates × Option ValueError :=
  getConfig (readlines (configText items))

/-- An item without errors is followed by the others. -/
theorem readAll_cons (item : Item) (items : List Item) :
    readAll (item :: items) =
      if item.read.2 = none then (item.read.1 ++ (readAll items).1, (readAll items).2)
      else item.read := by
  have htext : configText (item :: items) = item.line ++ '\n' :: configText items := by
    simp [configText]
  rw [readAll, htext, readlines_append item.oneLine, getConfig_append]
  rfl

theorem filterMap_coordinates (item : Item) (items : List Item) :
    (item :: items).filterMap Item.coordinates =
      item.coordinates.toList ++ items.filterMap Item.coordinates := by
  cases item <;> rfl

/-- Without an error, every answer is read. -/
theorem length_le_readAll {items : List Item} (h : (readAll items).2 = none) :
    (items.filterMap Item.coordinates).length ≤ (readAll items).1.length := by
  induction items with
  | nil => exact Nat.zero_le _
  | cons item items ih =>
      rw [readAll_cons] at h ⊢
      split at h
      · next hitem =>
        obtain ⟨extra, hextra⟩ := item.read_spec.1 hitem
        have hrest := ih h
        rw [if_pos hitem, hextra, filterMap_coordinates]
        simp only [List.length_append]
        omega
      · next hitem => exact absurd h hitem

/-- A configuration is read as its answers when its first item is, and the others are. -/
theorem readsAnswers_cons (item : Item) (items : List Item) :
    ReadsAnswers (item :: items) ↔ item.Tame ∧ ReadsAnswers items := by
  change readAll (item :: items) = _ ↔ item.Tame ∧ readAll items = _
  rw [← item.read_spec.2, filterMap_coordinates, readAll_cons]
  constructor
  · intro h
    split at h
    · next hitem =>
      obtain ⟨extra, hextra⟩ := item.read_spec.1 hitem
      obtain ⟨hpairs, hnone⟩ := Prod.mk.inj h
      rw [hextra, List.append_assoc, List.append_cancel_left_eq] at hpairs
      -- the others are read at least as their answers, which leaves nothing for this item
      have hlength := congrArg List.length hpairs
      have hrest := length_le_readAll hnone
      rw [List.length_append] at hlength
      obtain rfl : extra = [] := List.eq_nil_of_length_eq_zero (by omega)
      exact ⟨Prod.ext (by simpa using hextra) hitem, Prod.ext hpairs hnone⟩
    · next hitem => exact absurd (congrArg Prod.snd h) hitem
  · rintro ⟨hitem, hrest⟩
    rw [hitem, hrest, if_pos rfl]

/-- The configuration is read as its answers exactly when all items are tame. -/
theorem readsAnswers_iff (items : List Item) :
    ReadsAnswers items ↔ ∀ item ∈ items, item.Tame := by
  induction items with
  | nil => exact iff_of_true rfl (by simp)
  | cons item items ih => rw [readsAnswers_cons, List.forall_mem_cons, ih]

/-- An answer in free text. -/
def ownerAnswer : Answer where
  fname := "SecureInetd".toList
  ident := "owner".toList
  value := "uid=0".toList
  fnameChars := List.forall_iff_forall_mem.mp (by decide)
  identChars := List.forall_iff_forall_mem.mp (by decide)
  oneLine := by decide
  unquoted := by decide

/-- Its equals sign ends the reading with an error. -/
theorem equals_sign_rejected : ¬ ∀ items, ReadsAnswers items := by
  intro h
  have hread : (getConfig (readlines (configText [.answer ownerAnswer]))).2 ≠ none := by decide
  exact hread (congrArg Prod.snd (h [.answer ownerAnswer]))

end MetaSecurity.Questions
