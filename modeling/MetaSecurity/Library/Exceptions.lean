import Mathlib.Tactic.Basic

/-!
# Programs that raise exceptions

`EStateM` programs stop at the first exception, and what they did before stays done. `stateAfter` is
what is left behind in either case. `bind_eq_ok` takes a run without exceptions apart, and `Keeps`
is for what no exception can undo.
-/

namespace Library.Exceptions

universe u

variable {ε σ α β : Type u}

/-- The state that a program leaves behind. -/
def stateAfter (program : EStateM ε σ α) (s : σ) : σ :=
  match program s with
  | .ok _ s' => s'
  | .error _ s' => s'

/-- The exception that ends a program. -/
def raisedBy (program : EStateM ε σ α) (s : σ) : Option ε :=
  match program s with
  | .ok _ _ => none
  | .error e _ => some e

/-- An operation that changes nothing, but may raise an exception. -/
def attempt (fault : Option ε) : EStateM ε σ PUnit :=
  match fault with
  | none => pure ⟨⟩
  | some e => throw e

/-- An operation that only changes the state. -/
def change (f : σ → σ) : EStateM ε σ PUnit := modify f

variable {program : EStateM ε σ α} {rest : α → EStateM ε σ β} {s s' : σ} {a : α} {e : ε}

theorem bind_of_ok (h : program s = .ok a s') : (program >>= rest) s = rest a s' := by
  change EStateM.bind program rest s = _
  rw [EStateM.bind, h]

theorem bind_of_error (h : program s = .error e s') : (program >>= rest) s = .error e s' := by
  change EStateM.bind program rest s = _
  rw [EStateM.bind, h]

/-- A run without exceptions consists of runs without exceptions. -/
theorem bind_eq_ok {b : β} {s'' : σ} :
    (program >>= rest) s = .ok b s'' ↔ ∃ a s', program s = .ok a s' ∧ rest a s' = .ok b s'' := by
  cases h : program s with
  | ok a s' =>
      rw [bind_of_ok h]
      refine ⟨fun hrest => ⟨a, s', rfl, hrest⟩, ?_⟩
      rintro ⟨a, s', heq, hrest⟩
      cases heq
      exact hrest
  | error e s' => simp [bind_of_error h]

/-- To look at the state raises nothing. -/
theorem get_apply (s : σ) : (get : EStateM ε σ σ) s = .ok s s := rfl

@[simp] theorem attempt_none (s : σ) : attempt (none : Option ε) s = .ok ⟨⟩ s := rfl

@[simp] theorem attempt_some (e : ε) (s : σ) : attempt (some e) s = .error e s := rfl

theorem attempt_eq_ok {fault : Option ε} {x : PUnit} :
    attempt fault s = .ok x s' ↔ fault = none ∧ s' = s := by
  cases fault <;> simp [eq_comm]

theorem stateAfter_of_ok (h : program s = .ok a s') : stateAfter program s = s' := by
  rw [stateAfter, h]

theorem stateAfter_of_error (h : program s = .error e s') : stateAfter program s = s' := by
  rw [stateAfter, h]

theorem raisedBy_of_error (h : program s = .error e s') : raisedBy program s = some e := by
  rw [raisedBy, h]

/-- The rest of a program decides, when there is one. -/
theorem stateAfter_bind_of_ok (h : program s = .ok a s') :
    stateAfter (program >>= rest) s = stateAfter (rest a) s' := by
  rw [stateAfter, bind_of_ok h]
  rfl

theorem stateAfter_bind_of_error (h : program s = .error e s') :
    stateAfter (program >>= rest) s = s' :=
  stateAfter_of_error (bind_of_error h)

/-! ## What stays as it is -/

/-- The program keeps `P`, also when an exception ends it. -/
def Keeps (P : σ → Prop) (program : EStateM ε σ α) : Prop := ∀ s, P s → P (stateAfter program s)

variable {P : σ → Prop}

theorem Keeps.bind (hfirst : Keeps P program) (hrest : ∀ a, Keeps P (rest a)) :
    Keeps P (program >>= rest) := by
  intro s hs
  have hleft := hfirst s hs
  cases h : program s with
  | ok a s' =>
      rw [stateAfter_of_ok h] at hleft
      rw [stateAfter_bind_of_ok h]
      exact hrest a s' hleft
  | error e s' =>
      rw [stateAfter_of_error h] at hleft
      rwa [stateAfter_bind_of_error h]

theorem Keeps.attempt (fault : Option ε) : Keeps P (attempt fault) := by
  intro s hs
  cases fault <;> exact hs

theorem Keeps.throw (e : ε) : Keeps P (throw e : EStateM ε σ α) := fun _ hs => hs

theorem Keeps.change {f : σ → σ} (hf : ∀ s, P s → P (f s)) :
    Keeps P (change f : EStateM ε σ PUnit) := hf

end Library.Exceptions
