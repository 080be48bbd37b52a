import MetaSecurity.Library.Python

/-!
# The settings at parse time

`get_verity_fstypes` and the anonymous function of `dm-verity-img.bbclass`. BitBake expands the
call of the first when the second reads `IMAGE_FSTYPES`, before the test for settings that are
missing. `parsesAsDescribed_iff` says for which settings parsing does what it should.
-/

namespace MetaSecurity.Verity

open Library Python

/-! ## The two functions -/

/-- The variables that the class reads while a recipe is parsed. `none` is an unset variable. -/
structure Settings where
  pn : Text
  verityImage : Option Text
  verityType : Option Text
  verityHash : Option Text
  /-- `IMAGE_FSTYPES` before the class adds to it. -/
  imageFstypes : Option Text

/-- What ends the parsing of a recipe. -/
inductive Raised where
  | typeError (message : Text)
  | fatal (message : Text)
deriving DecidableEq

/-- What the anonymous function leaves behind. -/
structure Effects where
  warnings : List Text
  /-- The text appended to the `depends` flag of `do_image_wic`. -/
  depends : Text
deriving DecidableEq

def verity : Text := "verity".toList

def vhash : Text := "vhash".toList

def wic : Text := "wic".toList

def endswithNone : Text :=
  "endswith first arg must be str or a tuple of str, not NoneType".toList

def addToNone : Text := "unsupported operand type(s) for +: 'NoneType' and 'str'".toList

def notUsed : Text := "dm-verity-img class inherited but not used".toList

def oneTypeOnly : Text := "DM_VERITY_IMAGE_TYPE must contain exactly one type".toList

/-- The type that a separate hash adds. -/
def hashFstype (d : Settings) : Text := if d.verityHash = some ['1'] then ' ' :: vhash else []

/-- `get_verity_fstypes(d)`. -/
def getVerityFstypes (d : Settings) : Except Raised Text :=
  match d.verityImage with
  | none => .error (.typeError endswithNone)
  | some verityImage =>
      if !endsWith verityImage d.pn then .ok []
      else
        match d.verityType with
        | none => .error (.typeError addToNone)
        | some verityType => .ok (verityType ++ '.' :: (verity ++ hashFstype d))

/-- The value of `IMAGE_FSTYPES`, with the inline call expanded. -/
def expandedFstypes (d : Settings) : Except Raised Text :=
  (getVerityFstypes d).map fun fstypes => d.imageFstypes.getD [] ++ ' ' :: fstypes

/-- `' %s:do_image_%s' % (pn, verity_type.replace("-", "_"))`. -/
def dependency (pn verityType : Text) : Text :=
  ' ' :: pn ++ ":do_image_".toList ++ replaceChar '-' '_' verityType

/-- The anonymous function. -/
def anonymous (d : Settings) : Except Raised Effects := do
  -- `d.getVar` expands the inline call, and so raises what it raises.
  let imageFstypes ← expandedFstypes d
  match d.verityImage, d.verityType with
  | some verityImage, some verityType =>
      if verityImage = [] ∨ verityType = [] then
        return { warnings := [notUsed], depends := [] }
      if !endsWith verityImage d.pn then
        return { warnings := [], depends := [] }
      if (words verityType).length ≠ 1 then
        throw (.fatal oneTypeOnly)
      if contains wic imageFstypes then
        return { warnings := [], depends := dependency d.pn verityType }
      return { warnings := [], depends := [] }
  | _, _ => return { warnings := [notUsed], depends := [] }

/-! ## What parsing should do -/

/-- What the settings ask for. -/
inductive Usage where
  | unused
  | unconcerned
  | oneType (type : Text)
  | otherTypes
deriving DecidableEq

/-- The usage of the class in a recipe. -/
def usage (d : Settings) : Usage :=
  match d.verityImage, d.verityType with
  | some verityImage, some verityType =>
      if verityImage = [] ∨ verityType = [] then .unused
      else if !endsWith verityImage d.pn then .unconcerned
      else
        match words verityType with
        | [type] => .oneType type
        | _ => .otherTypes
  | _, _ => .unused

/-- The image types that are not due to the class. -/
def otherFstypes (d : Settings) : List Text := words (d.imageFstypes.getD [])

/-- The image types of a recipe that has a type to protect. -/
def verityFstypes (d : Settings) (type : Text) : List Text :=
  (type ++ '.' :: verity) :: if d.verityHash = some ['1'] then [vhash] else []

/-- Parsing raises no exception and has the effects that the usage of the class calls for. -/
def ParsesAsDescribed (d : Settings) : Prop :=
  ∃ imageFstypes, expandedFstypes d = .ok imageFstypes ∧
    match usage d with
    | .unused =>
        words imageFstypes = otherFstypes d ∧
          anonymous d = .ok { warnings := [notUsed], depends := [] }
    | .unconcerned =>
        words imageFstypes = otherFstypes d ∧ anonymous d = .ok { warnings := [], depends := [] }
    | .oneType type =>
        words imageFstypes = otherFstypes d ++ verityFstypes d type ∧
          anonymous d = .ok {
            warnings := []
            depends := if (otherFstypes d).contains wic then dependency d.pn type else [] }
    | .otherTypes => anonymous d = .error (.fatal oneTypeOnly)

/-- No blank stands where it would end up in an image type or in a dependency, and looking for
`wic` in the text of `IMAGE_FSTYPES` is as good as looking for it among the types. -/
def PlainType (d : Settings) (verityType type : Text) : Prop :=
  rstrip verityType = verityType ∧
    if (otherFstypes d).contains wic then verityType = type
    else contains wic (d.imageFstypes.getD []) = false ∧ contains wic verityType = false

/-- There is an image, and where it concerns the recipe there is a type for it. -/
def WellSet (d : Settings) : Prop :=
  ∃ verityImage, d.verityImage = some verityImage ∧ verityImage ≠ [] ∧
    (endsWith verityImage d.pn = true →
      ∃ verityType, d.verityType = some verityType ∧ verityType ≠ [] ∧
        ∀ type, words verityType = [type] → PlainType d verityType type)

/-! ## The image types -/

/-- The class adds its types behind the others. -/
theorem words_fstypes (d : Settings) (fstypes : Text) :
    words (d.imageFstypes.getD [] ++ ' ' :: fstypes) = otherFstypes d ++ words fstypes :=
  fields_append_cons (by decide) _ _

/-- A type without blanks gives the types that it should. -/
theorem words_verityFstypes (d : Settings) {type : Text} (h : ∀ c ∈ type, isSpace c = false) :
    words (type ++ '.' :: (verity ++ hashFstype d)) = verityFstypes d type := by
  have hverity : ∀ c ∈ type ++ '.' :: verity, isSpace c = false := by
    intro c hc
    rcases List.mem_append.mp hc with hc | hc
    · exact h c hc
    · exact List.forall_iff_forall_mem.mp
        (by decide : ('.' :: verity).Forall (isSpace · = false)) c hc
  have hne : type ++ '.' :: verity ≠ [] := by simp
  unfold hashFstype verityFstypes
  split
  · rw [← List.cons_append, ← List.append_assoc, words,
      fields_append_sep_of_forall (by decide) hne hverity]
    rfl
  · rw [List.append_nil]
    exact fields_eq_singleton hne hverity

/-- Blanks behind a type cut it off from its ending. -/
theorem words_cutFstypes (d : Settings) {front type back : Text}
    (hfront : ∀ c ∈ front, isSpace c = true) (htype : OneWord type) (hne : back ≠ [])
    (hback : ∀ c ∈ back, isSpace c = true) :
    words (front ++ type ++ back ++ '.' :: (verity ++ hashFstype d)) =
      type :: verityFstypes d [] := by
  obtain ⟨sep, rest, rfl⟩ := List.exists_cons_of_ne_nil hne
  rw [List.append_assoc, List.append_assoc, words, fields_append_left hfront, List.cons_append,
    fields_append_sep_of_forall (hback sep List.mem_cons_self) htype.1 htype.2,
    fields_append_left fun c hc => hback c (List.mem_cons_of_mem _ hc)]
  have hnone : ∀ c ∈ ([] : Text), isSpace c = false := by simp
  exact congrArg (type :: ·) (words_verityFstypes d hnone)

/-- The types are the expected ones when no blank follows the type. -/
theorem words_added_iff (d : Settings) {front type back : Text}
    (hfront : ∀ c ∈ front, isSpace c = true) (htype : OneWord type)
    (hback : ∀ c ∈ back, isSpace c = true) :
    words (front ++ type ++ back ++ '.' :: (verity ++ hashFstype d)) = verityFstypes d type ↔
      back = [] := by
  constructor
  · intro h
    by_contra hne
    rw [words_cutFstypes d hfront htype hne hback] at h
    have hlength := congrArg List.length h
    simp [verityFstypes] at hlength
  · rintro rfl
    rw [List.append_nil, List.append_assoc, words, fields_append_left hfront]
    exact words_verityFstypes d htype.2

/-- Some type is always added. -/
theorem words_added_ne_nil (d : Settings) (verityType : Text) :
    words (verityType ++ '.' :: (verity ++ hashFstype d)) ≠ [] := by
  have hmem : '.' ∈ verityType ++ '.' :: (verity ++ hashFstype d) := by simp
  obtain ⟨field, hfield, -⟩ := exists_mem_fields hmem (by decide : isSpace '.' = false)
  exact List.ne_nil_of_mem hfield

/-- The added text mentions `wic` only where the type does. -/
theorem contains_wic (d : Settings) (verityType : Text) :
    contains wic (d.imageFstypes.getD [] ++
        ' ' :: (verityType ++ '.' :: (verity ++ hashFstype d))) =
      (contains wic (d.imageFstypes.getD []) || contains wic verityType) := by
  have hending : contains wic (verity ++ hashFstype d) = false := by
    unfold hashFstype
    split <;> decide
  rw [contains_append_cons (by decide), contains_append_cons (by decide), hending, Bool.or_false]

/-- The dependency on the type with its blanks is the right one when there are none. -/
theorem dependency_eq_iff (pn : Text) {front type back : Text} :
    dependency pn (front ++ type ++ back) = dependency pn type ↔ front ++ type ++ back = type := by
  constructor
  · intro h
    have hlength := congrArg List.length h
    simp only [dependency, replaceChar, List.length_append, List.length_map, List.length_cons]
      at hlength
    have hfront : front = [] := List.eq_nil_of_length_eq_zero (by omega)
    have hback : back = [] := List.eq_nil_of_length_eq_zero (by omega)
    simp [hfront, hback]
  · intro h
    rw [h]

/-! ## The usages -/

section

variable {d : Settings} {verityImage verityType : Text}

/-- Without an image the expansion raises an exception, before the test for a missing image. -/
theorem raises_of_image_none (h : d.verityImage = none) : ¬ ParsesAsDescribed d := by
  rintro ⟨imageFstypes, hexpanded, -⟩
  rw [expandedFstypes, getVerityFstypes, h] at hexpanded
  cases hexpanded

/-- So it does without a type for the image of the recipe. -/
theorem raises_of_type_none (himage : d.verityImage = some verityImage)
    (hends : endsWith verityImage d.pn = true) (htype : d.verityType = none) :
    ¬ ParsesAsDescribed d := by
  rintro ⟨imageFstypes, hexpanded, -⟩
  simp only [expandedFstypes, getVerityFstypes, himage, hends, htype] at hexpanded
  cases hexpanded

/-- What the expansion gives for a recipe that the image concerns. -/
theorem expandedFstypes_concerned (himage : d.verityImage = some verityImage)
    (hends : endsWith verityImage d.pn = true) (htype : d.verityType = some verityType) :
    expandedFstypes d = .ok (d.imageFstypes.getD [] ++
      ' ' :: (verityType ++ '.' :: (verity ++ hashFstype d))) := by
  simp [expandedFstypes, getVerityFstypes, himage, hends, htype, Except.map]

/-- Every recipe ends in an empty name, and an empty type is extended all the same. -/
theorem gains_of_empty (himage : d.verityImage = some verityImage)
    (hends : endsWith verityImage d.pn = true) (htype : d.verityType = some verityType)
    (hempty : verityImage = [] ∨ verityType = []) : ¬ ParsesAsDescribed d := by
  have husage : usage d = .unused := by simp [usage, himage, htype, hempty]
  rintro ⟨imageFstypes, hexpanded, heffect⟩
  rw [expandedFstypes_concerned himage hends htype, Except.ok.injEq] at hexpanded
  subst hexpanded
  rw [husage, words_fstypes] at heffect
  exact words_added_ne_nil d verityType (by simpa using heffect.1)

/-- A recipe that the image does not concern is left alone. -/
theorem parses_of_unconcerned (himage : d.verityImage = some verityImage)
    (hends : endsWith verityImage d.pn = false) : ParsesAsDescribed d := by
  have hexpanded : expandedFstypes d = .ok (d.imageFstypes.getD [] ++ [' ']) := by
    simp [expandedFstypes, getVerityFstypes, himage, hends, Except.map]
  have hwords : words (d.imageFstypes.getD [] ++ [' ']) = otherFstypes d := by
    rw [words_fstypes]
    simp [words]
  have hne : verityImage ≠ [] := by
    rintro rfl
    simp [endsWith] at hends
  refine ⟨_, hexpanded, ?_⟩
  cases htype : d.verityType with
  | none =>
      have husage : usage d = .unused := by simp [usage, himage, htype]
      rw [husage]
      refine ⟨hwords, ?_⟩
      rw [anonymous, hexpanded, himage, htype]
      rfl
  | some verityType =>
      by_cases hempty : verityType = []
      · have husage : usage d = .unused := by simp [usage, himage, htype, hempty]
        rw [husage]
        refine ⟨hwords, ?_⟩
        rw [anonymous, hexpanded, himage, htype]
        simp [hempty, Except.bind, bind, pure, Except.pure]
      · have husage : usage d = .unconcerned := by simp [usage, himage, htype, hempty, hne, hends]
        rw [husage]
        refine ⟨hwords, ?_⟩
        rw [anonymous, hexpanded, himage, htype]
        simp [hempty, hne, hends, bind, Except.bind, pure, Except.pure]

/-- What the anonymous function does for a recipe that the image concerns. -/
theorem anonymous_concerned (himage : d.verityImage = some verityImage)
    (hends : endsWith verityImage d.pn = true) (htype : d.verityType = some verityType)
    (hset : ¬ (verityImage = [] ∨ verityType = [])) :
    anonymous d =
      if (words verityType).length ≠ 1 then .error (.fatal oneTypeOnly)
      else .ok {
        warnings := []
        depends :=
          if contains wic (d.imageFstypes.getD []) || contains wic verityType
            then dependency d.pn verityType else [] } := by
  rw [anonymous, expandedFstypes_concerned himage hends htype, himage, htype]
  simp only [bind, Except.bind, if_neg hset, hends, contains_wic]
  by_cases hone : (words verityType).length ≠ 1
  · simp [hone, throw, throwThe, MonadExceptOf.throw]
  · by_cases hwic : (contains wic (d.imageFstypes.getD []) || contains wic verityType) = true
    · simp [hone, hwic, pure, Except.pure]
    · simp [hone, hwic, pure, Except.pure]

/-- A type of no word, or of several, is fatal. -/
theorem parses_of_otherTypes (himage : d.verityImage = some verityImage)
    (hends : endsWith verityImage d.pn = true) (htype : d.verityType = some verityType)
    (hset : ¬ (verityImage = [] ∨ verityType = []))
    (hwords : ∀ type, words verityType ≠ [type]) : ParsesAsDescribed d := by
  have husage : usage d = .otherTypes := by
    simp [usage, himage, htype, hset, hends]
  have hlength : (words verityType).length ≠ 1 := fun hone =>
    (List.length_eq_one_iff.mp hone).elim hwords
  refine ⟨_, expandedFstypes_concerned himage hends htype, ?_⟩
  rw [husage]
  rw [anonymous_concerned himage hends htype hset, if_pos hlength]

/-- A type of one word is treated as it should exactly when it is plain. -/
theorem parses_oneType_iff (himage : d.verityImage = some verityImage)
    (hends : endsWith verityImage d.pn = true) (htype : d.verityType = some verityType)
    (hset : ¬ (verityImage = [] ∨ verityType = [])) {type : Text}
    (hwords : words verityType = [type]) : ParsesAsDescribed d ↔ PlainType d verityType type := by
  have husage : usage d = .oneType type := by
    simp [usage, himage, htype, hset, hends, hwords]
  have hexpanded := expandedFstypes_concerned himage hends htype
  have hlength : ¬ (words verityType).length ≠ 1 := by simp [hwords]
  have heffect := anonymous_concerned himage hends htype hset
  rw [if_neg hlength] at heffect
  obtain ⟨front, back, rfl, hfront, hword, hback⟩ := words_eq_singleton_iff.mp hwords
  have hstrip : rstrip (front ++ type ++ back) = front ++ type ++ back ↔ back = [] := by
    rw [rstrip_append_blanks hword hback]
    simp
  -- the added type keeps the white space behind it, the dependency all of it
  have hparses : ParsesAsDescribed d ↔ back = [] ∧
      (if contains wic (d.imageFstypes.getD []) || contains wic (front ++ type ++ back)
        then dependency d.pn (front ++ type ++ back) else []) =
        if (otherFstypes d).contains wic then dependency d.pn type else [] := by
    constructor
    · rintro ⟨imageFstypes, hfstypes, hresult⟩
      rw [hexpanded, Except.ok.injEq] at hfstypes
      subst hfstypes
      rw [husage, words_fstypes, heffect] at hresult
      exact ⟨(words_added_iff d hfront hword hback).mp (List.append_cancel_left hresult.1),
        by simpa using hresult.2⟩
    · rintro ⟨hplain, hdepends⟩
      refine ⟨_, hexpanded, ?_⟩
      rw [husage, words_fstypes, heffect]
      exact ⟨congrArg _ ((words_added_iff d hfront hword hback).mpr hplain), by rw [hdepends]⟩
  rw [hparses, PlainType, hstrip]
  refine and_congr_right fun _ => ?_
  by_cases hwic : (otherFstypes d).contains wic = true
  · -- the wic image is asked for as a word, so the search for the text finds it, too
    have hmem : wic ∈ otherFstypes d := List.contains_iff_mem.mp hwic
    rw [if_pos hwic, if_pos hwic, contains_of_mem_words hmem, Bool.true_or, if_pos rfl]
    exact dependency_eq_iff d.pn
  · rw [if_neg hwic, if_neg hwic, ← Bool.or_eq_false_iff]
    constructor
    · intro h
      by_contra hcontains
      rw [if_pos (Bool.not_eq_false _ ▸ hcontains)] at h
      cases h
    · intro h
      rw [h, if_neg Bool.false_ne_true]

end

/-! ## Parsing -/

/-- Parsing does what it should exactly when an image is set, every recipe that it concerns has a
type, and a type of one word is plain. -/
theorem parsesAsDescribed_iff (d : Settings) : ParsesAsDescribed d ↔ WellSet d := by
  cases himage : d.verityImage with
  | none =>
      refine iff_of_false (raises_of_image_none himage) ?_
      rintro ⟨verityImage, hsome, -⟩
      simp [himage] at hsome
  | some verityImage =>
      have hset : WellSet d ↔ verityImage ≠ [] ∧ (endsWith verityImage d.pn = true →
          ∃ verityType, d.verityType = some verityType ∧ verityType ≠ [] ∧
            ∀ type, words verityType = [type] → PlainType d verityType type) := by
        simp [WellSet, himage]
      rw [hset]
      cases hends : endsWith verityImage d.pn with
      | false =>
          refine iff_of_true (parses_of_unconcerned himage hends) ⟨?_, nofun⟩
          rintro rfl
          simp [endsWith] at hends
      | true =>
          cases htype : d.verityType with
          | none => exact iff_of_false (raises_of_type_none himage hends htype) (by simp)
          | some verityType =>
              by_cases hempty : verityImage = [] ∨ verityType = []
              · refine iff_of_false (gains_of_empty himage hends htype hempty) ?_
                rcases hempty with rfl | rfl <;> simp
              · by_cases hone : ∃ type, words verityType = [type]
                · obtain ⟨type, hone⟩ := hone
                  rw [parses_oneType_iff himage hends htype hempty hone]
                  rw [not_or] at hempty
                  simp [hempty.1, hempty.2, hone]
                · have hother : ∀ type, words verityType ≠ [type] := fun type h => hone ⟨type, h⟩
                  refine iff_of_true
                    (parses_of_otherTypes himage hends htype hempty hother) ?_
                  rw [not_or] at hempty
                  exact ⟨hempty.1, fun _ => ⟨verityType, rfl, hempty.2, fun type h =>
                    absurd h (hother type)⟩⟩

/-- The class in a recipe that sets none of its variables. -/
def unsetExample : Settings where
  pn := "core-image-minimal".toList
  verityImage := none
  verityType := none
  verityHash := some ['0']
  imageFstypes := some "ext4 wic".toList

/-- There the warning that the class is not used never comes: an exception does. -/
theorem raises_when_unused :
    anonymous unsetExample = .error (.typeError endswithNone) ∧
      ¬ ParsesAsDescribed unsetExample :=
  ⟨rfl, raises_of_image_none rfl⟩

end MetaSecurity.Verity
