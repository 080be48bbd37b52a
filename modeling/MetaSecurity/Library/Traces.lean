import Mathlib.Data.List.Basic

/-!
# Steps of a run

A system performs actions one after the other. `after` is the state that a list of actions leads to,
and `EachStep` says something of every step on the way: of the action and of the state in which it
is taken. `EachStep.of_simulation` is the rule for a system that follows a more abstract one.
-/

namespace Library.Traces

variable {σ τ α : Type*} (perform : α → σ → σ)

/-- The state after some actions. -/
def after (s : σ) : List α → σ
  | [] => s
  | action :: actions => after (perform action s) actions

/-- Every action is taken in a state with which it has the property. -/
def EachStep (P : σ → α → Prop) : σ → List α → Prop
  | _, [] => True
  | s, action :: actions => P s action ∧ EachStep P (perform action s) actions

@[simp] theorem after_nil (s : σ) : after perform s [] = s := rfl

@[simp] theorem after_cons (s : σ) (action : α) (actions : List α) :
    after perform s (action :: actions) = after perform (perform action s) actions := rfl

theorem after_append (s : σ) (actions actions' : List α) :
    after perform s (actions ++ actions') = after perform (after perform s actions) actions' := by
  induction actions generalizing s with
  | nil => rfl
  | cons action actions ih => exact ih (perform action s)

variable {perform} {P : σ → α → Prop}

@[simp] theorem eachStep_nil (s : σ) : EachStep perform P s [] := trivial

@[simp] theorem eachStep_cons {s : σ} {action : α} {actions : List α} :
    EachStep perform P s (action :: actions) ↔
      P s action ∧ EachStep perform P (perform action s) actions := Iff.rfl

theorem eachStep_append {s : σ} {actions actions' : List α} :
    EachStep perform P s (actions ++ actions') ↔
      EachStep perform P s actions ∧ EachStep perform P (after perform s actions) actions' := by
  induction actions generalizing s with
  | nil => simp
  | cons action actions ih => simp only [List.cons_append, eachStep_cons, ih, after_cons, and_assoc]

theorem eachStep_and {Q : σ → α → Prop} {s : σ} {actions : List α} :
    EachStep perform (fun s action => P s action ∧ Q s action) s actions ↔
      EachStep perform P s actions ∧ EachStep perform Q s actions := by
  induction actions generalizing s with
  | nil => simp
  | cons action actions ih => simp only [eachStep_cons, ih, and_and_and_comm]

/-- The step at a place in a run. -/
theorem EachStep.at {s : σ} {before actions : List α} {action : α}
    (h : EachStep perform P s (before ++ action :: actions)) : P (after perform s before) action :=
  (eachStep_append.mp h).2.1

/-- Where each allowed step of the system is followed by the abstract one, and has a property while
the two agree, the run has it and the two agree at its end. -/
theorem EachStep.of_simulation {R : τ → σ → Prop} {perform' : α → τ → τ} {allowed : σ → α → Prop}
    {actions : List α} (hstep : ∀ {t s action}, R t s → action ∈ actions → allowed s action →
      R (perform' action t) (perform action s) ∧ P s action)
    {t : τ} {s : σ} (hR : R t s) (h : EachStep perform allowed s actions) :
    EachStep perform P s actions ∧ R (after perform' t actions) (after perform s actions) := by
  induction actions generalizing t s with
  | nil => exact ⟨trivial, hR⟩
  | cons action actions ih =>
      obtain ⟨hnext, hP⟩ := hstep hR List.mem_cons_self h.1
      have hlater := ih (fun hR' hmem => hstep hR' (List.mem_cons_of_mem action hmem)) hnext h.2
      exact ⟨⟨hP, hlater.1⟩, hlater.2⟩

/-- What every allowed step keeps holds at the end of a run. -/
theorem EachStep.invariant {I : σ → Prop} {allowed : σ → α → Prop}
    (hstep : ∀ {s action}, I s → allowed s action → I (perform action s)) {s : σ} (hI : I s)
    {actions : List α} (h : EachStep perform allowed s actions) : I (after perform s actions) := by
  induction actions generalizing s with
  | nil => exact hI
  | cons action actions ih => exact ih (hstep hI h.1) h.2

end Library.Traces
