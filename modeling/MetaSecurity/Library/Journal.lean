import MetaSecurity.Library.Traces
import Mathlib.Logic.Relation

/-!
# A journal of before-images

A place holds a value that is written over again and again. Before the first write its value is
saved as an image, or, where there was none, an entry says that the place is to be emptied. The
journal lists the entries, the newest one first, and undoing them in that order gives back the value
from which everything started. There is one image for a place: saving again keeps it.

`Recovers` is the invariant for undoing, `Kept` the one for the image, and `Reaches` says that some
events that lose nothing lead from one place to another: it keeps both.
-/

namespace Library.Journal

open Traces

variable {ν : Type*}

/-- What undoing an entry does: it moves the image back, or it empties the place. -/
inductive Entry where
  | restore
  | reset
  deriving Repr, DecidableEq

/-- The value that stands at a place, its image, and its part of the journal. -/
structure Place (ν : Type*) where
  current : Option ν
  image : Option ν
  entries : List Entry

/-- A place of which nothing has been recorded. -/
def Place.fresh (original : Option ν) : Place ν :=
  ⟨original, none, []⟩

/-- Undo one entry. Without an image there is nothing to move back. -/
def undo : Entry → Option ν × Option ν → Option ν × Option ν
  | .restore, (current, none) => (current, none)
  | .restore, (_, some value) => (some value, none)
  | .reset, (_, image) => (none, image)

/-- What stands at the place when the whole journal has been undone. -/
def Place.undone (p : Place ν) : Option ν :=
  (after undo (p.current, p.image) p.entries).1

/-- What is done to a place. An image can be saved as something else than the current value, or not
at all: the copy may fail. -/
inductive Event (ν : Type*) where
  | save (copy : Option ν)
  | write (value : Option ν)
  | create (value : ν)

def perform : Event ν → Place ν → Place ν
  | .save copy, ⟨current, none, entries⟩ => ⟨current, copy, .restore :: entries⟩
  | .save _, ⟨current, some image, entries⟩ => ⟨current, some image, entries⟩
  | .write value, p => { p with current := value }
  | .create value, p => { p with current := some value, entries := .reset :: p.entries }

/-- The journal knows what was at the place before. -/
def Place.covered (p : Place ν) : Bool :=
  p.image.isSome || p.entries.contains .reset

/-- An event that loses nothing: an image is faithful unless it is not needed, and a place is
written or filled when it is covered, or when it is empty and the entry says so. -/
def Lossless (p : Place ν) : Event ν → Prop
  | .save copy => copy = none ∨ copy = p.current ∨ p.covered = true
  | .write value => value = p.current ∨ p.covered = true
  | .create _ => p.current = none ∨ p.covered = true

/-- Undoing gives back the original value, and an image has its entry. -/
structure Recovers (original : Option ν) (p : Place ν) : Prop where
  undone : p.undone = original
  recorded : p.image.isSome = true → .restore ∈ p.entries

/-- Where an entry empties the place, or where there is an image to move back, it does not matter
what stood there. -/
theorem after_undo_congr {image : Option ν} {entries : List Entry}
    (h : .reset ∈ entries ∨ image.isSome = true ∧ .restore ∈ entries) (value value' : Option ν) :
    (after undo (value, image) entries).1 = (after undo (value', image) entries).1 := by
  induction entries generalizing value value' with
  | nil => simp at h
  | cons entry entries ih =>
      cases entry with
      | reset => rfl
      | restore =>
          cases image with
          | some v => rfl
          | none => exact ih (by simpa using h) value value'

/-- A covered place can be written over. -/
theorem Recovers.undone_of_covered {original : Option ν} {p : Place ν} (h : Recovers original p)
    (hcovered : p.covered = true) (value : Option ν) :
    { p with current := value }.undone = original := by
  rw [← h.undone]
  refine after_undo_congr ?_ value p.current
  rcases Bool.or_eq_true_iff.mp hcovered with himage | hreset
  · exact Or.inr ⟨himage, h.recorded himage⟩
  · exact Or.inl (by simpa using hreset)

/-- An event that loses nothing keeps the original value within reach. -/
theorem perform_recovers {original : Option ν} {p : Place ν} {event : Event ν}
    (h : Recovers original p) (hlossless : Lossless p event) :
    Recovers original (perform event p) := by
  obtain ⟨current, image, entries⟩ := p
  cases event with
  | save copy =>
      cases image with
      | some v => exact h
      | none =>
          refine ⟨?_, fun _ => List.mem_cons_self⟩
          cases copy with
          | none => exact h.undone
          | some v =>
              show (after undo (some v, none) entries).1 = original
              rcases hlossless with hnone | hsame | hcovered
              · simp at hnone
              · rw [hsame]
                exact h.undone
              · exact h.undone_of_covered hcovered (some v)
  | write value =>
      refine ⟨?_, h.recorded⟩
      rcases hlossless with hsame | hcovered
      · rw [hsame]
        exact h.undone
      · exact h.undone_of_covered hcovered value
  | create value =>
      refine ⟨?_, fun himage => List.mem_cons_of_mem _ (h.recorded himage)⟩
      show (after undo (none, image) entries).1 = original
      rcases hlossless with hempty | hcovered
      · rw [← hempty]
        exact h.undone
      · exact h.undone_of_covered hcovered none

theorem recovers_fresh (original : Option ν) : Recovers original (.fresh original) :=
  ⟨rfl, by simp [Place.fresh]⟩

/-! ## The image of a value that was there from the beginning -/

/-- The original value is still in its place or it is the image. -/
def Kept (original : ν) (p : Place ν) : Prop :=
  p.image = some original ∨ (p.current = some original ∧ p.covered = false)

theorem kept_fresh (original : ν) : Kept original (.fresh (some original)) :=
  Or.inr ⟨rfl, rfl⟩

/-- An event that loses nothing keeps the value or its image. -/
theorem perform_kept {original : ν} {p : Place ν} {event : Event ν} (h : Kept original p)
    (hlossless : Lossless p event) : Kept original (perform event p) := by
  obtain ⟨current, image, entries⟩ := p
  rcases h with himage | ⟨hcurrent, hcovered⟩
  · have himage : image = some original := himage
    subst himage
    left
    cases event <;> rfl
  · have hcurrent : current = some original := hcurrent
    subst hcurrent
    obtain ⟨himage, hreset⟩ : image = none ∧ entries.contains .reset = false := by
      simpa [Place.covered] using hcovered
    subst himage
    cases event with
    | save copy =>
        cases copy with
        | none => exact Or.inr ⟨rfl, by simpa [perform, Place.covered] using hreset⟩
        | some v =>
            left
            rcases hlossless with hnone | hsame | hcovered'
            · simp at hnone
            · exact hsame
            · simp [hcovered'] at hcovered
    | write value =>
        rcases hlossless with hsame | hcovered'
        · exact Or.inr ⟨hsame, hcovered⟩
        · simp [hcovered'] at hcovered
    | create value =>
        rcases hlossless with hempty | hcovered'
        · simp at hempty
        · simp [hcovered'] at hcovered

/-! ## Runs -/

/-- Some events that lose nothing lead from one place to the other. -/
def Reaches : Place ν → Place ν → Prop :=
  Relation.ReflTransGen fun p p' => ∃ event, Lossless p event ∧ p' = perform event p

theorem Reaches.refl (p : Place ν) : Reaches p p :=
  Relation.ReflTransGen.refl

theorem Reaches.single {p : Place ν} (event : Event ν) (h : Lossless p event) :
    Reaches p (perform event p) :=
  Relation.ReflTransGen.single ⟨event, h, rfl⟩

theorem Reaches.trans {p p' p'' : Place ν} (h : Reaches p p') (h' : Reaches p' p'') :
    Reaches p p'' :=
  Relation.ReflTransGen.trans h h'

theorem Reaches.recovers {original : Option ν} {p p' : Place ν} (h : Reaches p p')
    (hp : Recovers original p) : Recovers original p' := by
  induction h with
  | refl => exact hp
  | tail _ hevent ih =>
      obtain ⟨event, hlossless, rfl⟩ := hevent
      exact perform_recovers ih hlossless

theorem Reaches.kept {original : ν} {p p' : Place ν} (h : Reaches p p') (hp : Kept original p) :
    Kept original p' := by
  induction h with
  | refl => exact hp
  | tail _ hevent ih =>
      obtain ⟨event, hlossless, rfl⟩ := hevent
      exact perform_kept ih hlossless

/-- A place stays covered. -/
theorem covered_perform {p : Place ν} (h : p.covered = true) (event : Event ν) :
    (perform event p).covered = true := by
  obtain ⟨current, image, entries⟩ := p
  cases event with
  | save copy =>
      cases image with
      | some v => rfl
      | none =>
          have hreset : entries.contains .reset = true := h
          have hlater : (Entry.restore :: entries).contains .reset = true := by
            simpa using hreset
          exact Bool.or_eq_true_iff.mpr (Or.inr hlater)
  | write value => exact h
  | create value => exact Bool.or_eq_true_iff.mpr (Or.inr (by simp [perform]))

/-- A place of which a copy has been made is covered. -/
theorem covered_save (p : Place ν) (value : ν) :
    (perform (.save (some value)) p).covered = true := by
  obtain ⟨current, image, entries⟩ := p
  cases image <;> rfl

end Library.Journal
