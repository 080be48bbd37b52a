import MetaSecurity.Library.Exceptions
import Mathlib.Algebra.Ring.Int.Defs
import Mathlib.Algebra.Ring.Nat
import Mathlib.Logic.Function.Basic

/-!
# Buffers of fixed size

Programs that write to and read from buffers, as C programs do. An access outside a buffer and a
result that an `int` cannot hold are faults, which stand for undefined behaviour. `Runs` says that
a run has no fault and what holds at its end; it has a rule for every construct, and each rule is
an equivalence.
-/

namespace Library.Buffers

open Exceptions

variable {ι α β γ : Type}

/-- What the buffers hold. The length of the list is the size of the buffer. -/
abbrev Memory (ι α : Type) := ι → List α

/-- What makes a run undefined. -/
inductive Fault (ι : Type) where
  | overrun (buffer : ι)
  | overflow
  deriving Repr, DecidableEq

/-- A program on buffers. -/
abbrev Program (ι α β : Type) := EStateM (Fault ι) (Memory ι α) β

/-- The integer is representable as an `int` of 32 bits. -/
def signed32 (value : Int) : Prop :=
  -(2 ^ 31) ≤ value ∧ value < 2 ^ 31

instance (value : Int) : Decidable (signed32 value) :=
  inferInstanceAs (Decidable (_ ∧ _))

/-- A list with some of its elements written over, from an offset on. -/
def overwrite (offset : Nat) (xs contents : List α) : List α :=
  contents.take offset ++ xs ++ contents.drop (offset + xs.length)

section

variable [DecidableEq ι]

/-- Write to a buffer. -/
def store (buffer : ι) (offset : Nat) (xs : List α) : Program ι α PUnit := fun memory =>
  if offset + xs.length ≤ (memory buffer).length then
    .ok ⟨⟩ (Function.update memory buffer (overwrite offset xs (memory buffer)))
  else .error (.overrun buffer) memory

/-- A new buffer with what happens to be in it. -/
def allocate (buffer : ι) (block : List α) : Program ι α PUnit :=
  change fun memory => Function.update memory buffer block

end

/-- Read from the beginning of a buffer. -/
def load (buffer : ι) (n : Nat) : Program ι α (List α) := fun memory =>
  if n ≤ (memory buffer).length then .ok ((memory buffer).take n) memory
  else .error (.overrun buffer) memory

/-- The result of an operation on numbers of type `int`. -/
def checked (value : Int) : Program ι α Int :=
  if signed32 value then pure value else throw .overflow

/-! ## Writing over a list -/

theorem length_overwrite {offset : Nat} {xs contents : List α}
    (h : offset + xs.length ≤ contents.length) :
    (overwrite offset xs contents).length = contents.length := by
  simp only [overwrite, List.length_append, List.length_take, List.length_drop]
  omega

theorem take_overwrite (xs contents : List α) : (overwrite 0 xs contents).take xs.length = xs := by
  simp [overwrite]

theorem overwrite_all {xs contents : List α} (h : xs.length = contents.length) :
    overwrite 0 xs contents = xs := by
  simp [overwrite, h]

theorem overwrite_nil (contents : List α) : overwrite 0 [] contents = contents := by
  simp [overwrite]

/-! ## Runs without faults -/

/-- The run has no fault, and its result and the memory at its end have the property. -/
def Runs (program : Program ι α β) (memory : Memory ι α) (post : β → Memory ι α → Prop) : Prop :=
  ∃ b memory', program memory = .ok b memory' ∧ post b memory'

/-- The run has no fault. -/
def Defined (program : Program ι α β) (memory : Memory ι α) : Prop :=
  Runs program memory fun _ _ => True

variable {program : Program ι α β} {rest : β → Program ι α γ} {memory : Memory ι α}
  {post : β → Memory ι α → Prop}

theorem defined_iff : Defined program memory ↔ raisedBy program memory = none := by
  rw [Defined, Runs, raisedBy]
  cases program memory <;> simp

theorem Runs.mono {post' : β → Memory ι α → Prop} (h : Runs program memory post)
    (himp : ∀ b memory', post b memory' → post' b memory') : Runs program memory post' := by
  obtain ⟨b, memory', hrun, hpost⟩ := h
  exact ⟨b, memory', hrun, himp b memory' hpost⟩

theorem runs_of_ok {b : β} {memory' : Memory ι α} (h : program memory = .ok b memory') :
    Runs program memory post ↔ post b memory' := by
  constructor
  · rintro ⟨c, memory'', hrun, hpost⟩
    rw [h] at hrun
    cases hrun
    exact hpost
  · exact fun hpost => ⟨b, memory', h, hpost⟩

theorem not_runs_of_error {fault : Fault ι} {memory' : Memory ι α}
    (h : program memory = .error fault memory') : ¬ Runs program memory post := by
  rintro ⟨b, memory'', hrun, -⟩
  rw [h] at hrun
  cases hrun

@[simp] theorem runs_pure {b : β} : Runs (pure b) memory post ↔ post b memory :=
  runs_of_ok rfl

@[simp] theorem not_runs_throw {fault : Fault ι} : ¬ Runs (throw fault) memory post :=
  not_runs_of_error rfl

/-- The second program runs where the first one ends. -/
@[simp] theorem runs_bind {post : γ → Memory ι α → Prop} :
    Runs (program >>= rest) memory post ↔
      Runs program memory fun b memory' => Runs (rest b) memory' post := by
  constructor
  · rintro ⟨c, memory'', hrun, hpost⟩
    obtain ⟨b, memory', hfirst, hrest⟩ := bind_eq_ok.mp hrun
    exact ⟨b, memory', hfirst, c, memory'', hrest, hpost⟩
  · rintro ⟨b, memory', hfirst, c, memory'', hrest, hpost⟩
    exact ⟨c, memory'', bind_eq_ok.mpr ⟨b, memory', hfirst, hrest⟩, hpost⟩

@[simp] theorem runs_map {f : β → γ} {post : γ → Memory ι α → Prop} :
    Runs (f <$> program) memory post ↔ Runs program memory fun b memory' => post (f b) memory' := by
  rw [← bind_pure_comp, runs_bind]
  simp only [runs_pure]

@[simp] theorem runs_ite {p : Prop} [Decidable p] {program' : Program ι α β} :
    Runs (if p then program else program') memory post ↔
      (p → Runs program memory post) ∧ (¬ p → Runs program' memory post) := by
  by_cases hp : p <;> simp [hp]

@[simp] theorem runs_load {buffer : ι} {n : Nat} {post : List α → Memory ι α → Prop} :
    Runs (load buffer n) memory post ↔
      n ≤ (memory buffer).length ∧ post ((memory buffer).take n) memory := by
  by_cases hn : n ≤ (memory buffer).length
  · rw [runs_of_ok (if_pos hn), and_iff_right hn]
  · exact iff_of_false (not_runs_of_error (if_neg hn)) fun h => hn h.1

@[simp] theorem runs_checked {value : Int} {post : Int → Memory ι α → Prop} :
    Runs (checked value) memory post ↔ signed32 value ∧ post value memory := by
  by_cases hvalue : signed32 value <;> simp [checked, hvalue]

variable [DecidableEq ι]

@[simp] theorem runs_store {buffer : ι} {offset : Nat} {xs : List α}
    {post : PUnit → Memory ι α → Prop} :
    Runs (store buffer offset xs) memory post ↔
      offset + xs.length ≤ (memory buffer).length ∧
        post ⟨⟩ (Function.update memory buffer (overwrite offset xs (memory buffer))) := by
  by_cases hfits : offset + xs.length ≤ (memory buffer).length
  · rw [runs_of_ok (if_pos hfits), and_iff_right hfits]
  · exact iff_of_false (not_runs_of_error (if_neg hfits)) fun h => hfits h.1

@[simp] theorem runs_allocate {buffer : ι} {block : List α} {post : PUnit → Memory ι α → Prop} :
    Runs (allocate buffer block) memory post ↔ post ⟨⟩ (Function.update memory buffer block) :=
  runs_of_ok rfl

end Library.Buffers
