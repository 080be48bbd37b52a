import Mathlib.Data.List.Basic

/-!
# Processes and who tells them to end

A table of processes, in which a process remembers whether it has been told to end. Being told and
having ended are different things: a process that has been told is still there until it leaves. An
instance of a program is active if it has not been told.
-/

namespace Library.Supervision

variable {α : Type*}

/-- A process, what it is an instance of, and whether it has been told to end. -/
structure Process (α : Type*) where
  pid : Nat
  image : α
  told : Bool
  deriving Repr, DecidableEq

/-- The selected processes are told to end. -/
def tellSelected (selects : Nat → α → Bool) (processes : List (Process α)) : List (Process α) :=
  processes.map fun p => if selects p.pid p.image then { p with told := true } else p

/-- A new process. -/
def launch (pid : Nat) (image : α) (processes : List (Process α)) : List (Process α) :=
  processes ++ [⟨pid, image, false⟩]

/-- Processes end. -/
def leave (pids : List Nat) (processes : List (Process α)) : List (Process α) :=
  processes.filter fun p => !pids.contains p.pid

theorem map_pid_tell (selects : Nat → α → Bool) (processes : List (Process α)) :
    (tellSelected selects processes).map Process.pid = processes.map Process.pid := by
  rw [tellSelected, List.map_map]
  refine List.map_congr_left fun p _ => ?_
  show (if selects p.pid p.image then { p with told := true } else p).pid = p.pid
  split
  · rfl
  · rfl

/-- Nothing remains of some processes exactly if each of them has ended. -/
theorem leave_eq_nil_iff {processes : List (Process α)} {pids : List Nat} :
    leave pids processes = [] ↔ ∀ pid ∈ processes.map Process.pid, pid ∈ pids := by
  simp [leave, List.filter_eq_nil_iff]

section

variable (isInstance : α → Bool) (processes : List (Process α))

/-- The instances of a program. -/
def instances : List (Process α) :=
  processes.filter fun p => isInstance p.image

/-- The instances that have not been told to end. -/
def active : List (Process α) :=
  processes.filter fun p => isInstance p.image && !p.told

theorem active_eq_filter :
    active isInstance processes = (instances isInstance processes).filter fun p => !p.told := by
  rw [active, instances, List.filter_filter]
  exact List.filter_congr fun p _ => Bool.and_comm ..

theorem mem_instances {p : Process α} :
    p ∈ instances isInstance processes ↔ p ∈ processes ∧ isInstance p.image = true := by
  rw [instances, List.mem_filter]

theorem mem_active {p : Process α} : p ∈ active isInstance processes ↔
    p ∈ processes ∧ isInstance p.image = true ∧ p.told = false := by
  simp [active]

@[simp] theorem instances_leave (pids : List Nat) :
    instances isInstance (leave pids processes) = leave pids (instances isInstance processes) := by
  rw [instances, leave, List.filter_comm]
  rfl

@[simp] theorem active_leave (pids : List Nat) :
    active isInstance (leave pids processes) = leave pids (active isInstance processes) := by
  rw [active, leave, List.filter_comm]
  rfl

@[simp] theorem instances_launch (pid : Nat) (image : α) :
    instances isInstance (launch pid image processes) =
      instances isInstance processes ++ if isInstance image then [⟨pid, image, false⟩] else [] := by
  rw [instances, launch, List.filter_append]
  cases h : isInstance image <;> simp [instances, h]

@[simp] theorem active_launch (pid : Nat) (image : α) :
    active isInstance (launch pid image processes) =
      active isInstance processes ++ if isInstance image then [⟨pid, image, false⟩] else [] := by
  rw [active, launch, List.filter_append]
  cases h : isInstance image <;> simp [active, h]

/-- Telling processes to end leaves them there. -/
@[simp] theorem instances_tell (selects : Nat → α → Bool) :
    instances isInstance (tellSelected selects processes) =
      tellSelected selects (instances isInstance processes) := by
  simp only [instances, tellSelected, List.filter_map]
  refine congrArg _ (List.filter_congr fun p _ => ?_)
  show isInstance (if selects p.pid p.image then { p with told := true } else p).image = _
  split
  · rfl
  · rfl

/-- Those that are still active are the ones that were not selected. -/
theorem mem_active_tell {selects : Nat → α → Bool} {p : Process α} :
    p ∈ active isInstance (tellSelected selects processes) ↔
      p ∈ active isInstance processes ∧ selects p.pid p.image = false := by
  simp only [mem_active, tellSelected, List.mem_map]
  constructor
  · intro h
    obtain ⟨⟨q, hq, rfl⟩, himage, htold⟩ := h
    cases hselects : selects q.pid q.image with
    | true => simp [hselects] at htold
    | false =>
        simp only [hselects, Bool.false_eq_true, if_false] at himage htold ⊢
        exact ⟨⟨hq, himage, htold⟩, trivial⟩
  · intro h
    obtain ⟨⟨hp, himage, htold⟩, hselects⟩ := h
    exact ⟨⟨p, hp, by simp [hselects]⟩, himage, htold⟩

theorem length_instances_tell (selects : Nat → α → Bool) :
    (instances isInstance (tellSelected selects processes)).length =
      (instances isInstance processes).length := by
  rw [instances_tell, tellSelected, List.length_map]

theorem length_instances_leave_le (pids : List Nat) :
    (instances isInstance (leave pids processes)).length ≤
      (instances isInstance processes).length := by
  rw [instances_leave, leave]
  exact List.length_filter_le ..

end

end Library.Supervision
