import Mathlib.Data.List.Basic

/-!
# Commands under errexit

Under `set -e` a shell function is a sequence of commands that ends with the first one that
fails. What was done before the failure stays done, so that a later run of the same function
starts from it. `Triple` speaks of the state after success, `Leaves` also of the one that is left
behind by a command that stops, and `Keeps` of what is the same in either case.
-/

namespace Library.Shell

/-- How a command ends: with status 0, or with another status. -/
inductive Outcome (σ : Type*) where
  | done (s : σ)
  | stopped (s : σ)

/-- The state that is left behind. -/
def Outcome.state {σ : Type*} : Outcome σ → σ
  | .done s => s
  | .stopped s => s

/-- A command takes the state it is run in to its outcome. -/
abbrev Command (σ : Type*) := σ → Outcome σ

variable {σ : Type*}

/-- `first; second` under errexit. -/
def andThen (first second : Command σ) : Command σ := fun s =>
  match first s with
  | .done s' => second s'
  | .stopped s' => .stopped s'

/-- The commands one after the other. -/
def inOrder : List (Command σ) → Command σ
  | [] => Outcome.done
  | command :: commands => andThen command (inOrder commands)

/-- A test that changes nothing, with `|| exit 1`. -/
def require (test : σ → Bool) : Command σ := fun s => if test s then .done s else .stopped s

/-- Success of a sequence is success of its parts. -/
theorem andThen_eq_done {first second : Command σ} {s s'' : σ} :
    andThen first second s = .done s'' ↔ ∃ s', first s = .done s' ∧ second s' = .done s'' := by
  unfold andThen
  cases first s with
  | done s' => simp
  | stopped s' => simp

/-- Success of a list of commands. -/
theorem inOrder_cons_eq_done {command : Command σ} {commands : List (Command σ)} {s s'' : σ} :
    inOrder (command :: commands) s = .done s'' ↔
      ∃ s', command s = .done s' ∧ inOrder commands s' = .done s'' :=
  andThen_eq_done

/-! ## States after success -/

/-- When the command succeeds in a state with `P`, it leaves a state with `Q`. -/
def Triple (P : σ → Prop) (command : Command σ) (Q : σ → Prop) : Prop :=
  ∀ s s', P s → command s = .done s' → Q s'

/-- The sequence rule. -/
theorem Triple.andThen {P Q R : σ → Prop} {first second : Command σ}
    (hfirst : Triple P first Q) (hsecond : Triple Q second R) :
    Triple P (andThen first second) R := by
  intro s s'' hs h
  obtain ⟨s', h1, h2⟩ := andThen_eq_done.mp h
  exact hsecond s' s'' (hfirst s s' hs h1) h2

/-- An empty sequence changes nothing. -/
theorem Triple.nil {P : σ → Prop} : Triple P (inOrder []) P := by
  intro s s' hs h
  cases h
  exact hs

/-- The sequence rule for a list of commands. -/
theorem Triple.cons {P Q R : σ → Prop} {command : Command σ} {commands : List (Command σ)}
    (hfirst : Triple P command Q) (hrest : Triple Q (inOrder commands) R) :
    Triple P (inOrder (command :: commands)) R :=
  hfirst.andThen hrest

/-- A test changes nothing. -/
theorem Triple.require {P : σ → Prop} (test : σ → Bool) : Triple P (require test) P := by
  intro s s' hs h
  unfold Shell.require at h
  split at h
  · cases h
    exact hs
  · cases h

/-! ## What a command leaves alone -/

/-- The command leaves what `view` shows of the state alone, however it ends. -/
def Keeps {α : Type*} (view : σ → α) (command : Command σ) : Prop :=
  ∀ s, view (command s).state = view s

/-- The frame rule of a list of commands. -/
theorem Keeps.inOrder {α : Type*} {view : σ → α} {commands : List (Command σ)}
    (h : ∀ command ∈ commands, Keeps view command) : Keeps view (inOrder commands) := by
  induction commands with
  | nil => exact fun s => rfl
  | cons command commands ih =>
      intro s
      have hfirst := h command List.mem_cons_self s
      have hrest := ih fun other hother => h other (List.mem_cons_of_mem _ hother)
      unfold Shell.inOrder andThen
      cases hstep : command s with
      | done s' =>
          rw [hstep] at hfirst
          exact (hrest s').trans hfirst
      | stopped s' =>
          rw [hstep] at hfirst
          exact hfirst

/-! ## What a command leaves behind -/

/-- From a state with `P` the command leaves one with `Q` when it succeeds, and one with `R` when it
stops. -/
def Leaves (P : σ → Prop) (command : Command σ) (Q R : σ → Prop) : Prop :=
  ∀ s, P s → match command s with
    | .done s' => Q s'
    | .stopped s' => R s'

/-- What holds of the state that is left, however the command ends. -/
theorem leaves_iff_state {P Q : σ → Prop} {command : Command σ} :
    Leaves P command Q Q ↔ ∀ s, P s → Q (command s).state := by
  refine forall₂_congr fun s _ => ?_
  cases command s with
  | done s' => exact Iff.rfl
  | stopped s' => exact Iff.rfl

/-- Less may be said of the state of a command that stops. -/
theorem Leaves.mono {P Q R R' : σ → Prop} {command : Command σ} (h : Leaves P command Q R)
    (hweaker : ∀ s, R s → R' s) : Leaves P command Q R' := by
  intro s hs
  have hleft := h s hs
  cases hstep : command s with
  | done s' =>
      rw [hstep] at hleft
      exact hleft
  | stopped s' =>
      rw [hstep] at hleft
      exact hweaker s' hleft

/-- An empty sequence succeeds. -/
theorem Leaves.nil {P R : σ → Prop} : Leaves P (inOrder []) P R :=
  fun _ hs => hs

/-- The sequence rule. -/
theorem Leaves.cons {P Q Q' R : σ → Prop} {command : Command σ} {commands : List (Command σ)}
    (hfirst : Leaves P command Q R) (hrest : Leaves Q (inOrder commands) Q' R) :
    Leaves P (inOrder (command :: commands)) Q' R := by
  intro s hs
  have h := hfirst s hs
  unfold Shell.inOrder Shell.andThen
  cases hstep : command s with
  | done s' =>
      rw [hstep] at h
      exact hrest s' h
  | stopped s' =>
      rw [hstep] at h
      exact h

/-- What each command preserves. -/
theorem Leaves.inOrder {P : σ → Prop} {commands : List (Command σ)}
    (h : ∀ command ∈ commands, Leaves P command P P) : Leaves P (inOrder commands) P P := by
  induction commands with
  | nil => exact Leaves.nil
  | cons command commands ih =>
      exact (h command List.mem_cons_self).cons
        (ih fun other hother => h other (List.mem_cons_of_mem _ hother))

/-! ## Runs -/

/-- The state after running the commands one after the other, each of them whatever the status
of those before. -/
def afterRuns (commands : List (Command σ)) (s : σ) : σ :=
  commands.foldl (fun s command => (command s).state) s

end Library.Shell
