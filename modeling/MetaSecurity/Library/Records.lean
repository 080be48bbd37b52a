import Mathlib.Data.List.Basic
import Mathlib.Algebra.Ring.Nat

/-!
# Records ended by a terminator

A file as a sequence of terminated records, the last of which may lack its terminator: the
lines of a text. `records` are the terminated ones, `remainder` is what follows the last
terminator, and `recordsInduction` is the induction rule for anything that reads a file
record by record.
-/

namespace Library

variable {α : Type*} {nl : α}

/-- Records written one after the other, each with its terminator. -/
def terminate (nl : α) (rs : List (List α)) : List α :=
  rs.flatMap fun r => r ++ [nl]

@[simp] theorem terminate_nil : terminate nl [] = [] := rfl

@[simp] theorem terminate_cons (r : List α) (rs : List (List α)) :
    terminate nl (r :: rs) = r ++ nl :: terminate nl rs := by
  simp [terminate]

@[simp] theorem terminate_append (rs rs' : List (List α)) :
    terminate nl (rs ++ rs') = terminate nl rs ++ terminate nl rs' := by
  simp [terminate]

variable [DecidableEq α]

/-- The records of `t` that are closed by the terminator `nl`, without it. -/
def records (nl : α) (t : List α) : List (List α) :=
  (t.splitOn nl).dropLast

/-- What stands after the last terminator. -/
def remainder (nl : α) (t : List α) : List α :=
  (t.splitOn nl).getLastD []

/-- All records, the unterminated last one included unless it is empty. -/
def allRecords (nl : α) (t : List α) : List (List α) :=
  records nl t ++ if remainder nl t = [] then [] else [remainder nl t]

theorem records_of_not_mem {t : List α} (h : nl ∉ t) : records nl t = [] := by
  simp [records, List.splitOn_eq_singleton h]

theorem remainder_of_not_mem {t : List α} (h : nl ∉ t) : remainder nl t = t := by
  simp [remainder, List.splitOn_eq_singleton h]

/-- The first record of a file, followed by those of the rest. -/
theorem records_append_cons {r : List α} (h : nl ∉ r) (t : List α) :
    records nl (r ++ nl :: t) = r :: records nl t := by
  rw [records, List.splitOn_append_cons_self_of_not_mem h,
    List.dropLast_cons_of_ne_nil (List.splitOn_ne_nil nl t), records]

theorem remainder_append_cons {r : List α} (h : nl ∉ r) (t : List α) :
    remainder nl (r ++ nl :: t) = remainder nl t := by
  rw [remainder, List.splitOn_append_cons_self_of_not_mem h]
  obtain ⟨first, rest, hsplit⟩ := List.exists_cons_of_ne_nil (List.splitOn_ne_nil nl t)
  simp [remainder, hsplit]

theorem allRecords_append_cons {r : List α} (h : nl ∉ r) (t : List α) :
    allRecords nl (r ++ nl :: t) = r :: allRecords nl t := by
  simp only [allRecords, records_append_cons h, remainder_append_cons h, List.cons_append]

@[simp] theorem records_nil : records nl [] = [] := records_of_not_mem (by simp)

@[simp] theorem remainder_nil : remainder nl [] = [] := remainder_of_not_mem (by simp)

@[simp] theorem allRecords_nil : allRecords nl [] = [] := by simp [allRecords]

/-- Induction over a file: it has no terminator, or it is a record, its terminator, and a
file. -/
theorem recordsInduction (nl : α) {motive : List α → Prop}
    (remainder : ∀ t, nl ∉ t → motive t)
    (record : ∀ r t, nl ∉ r → motive t → motive (r ++ nl :: t)) (t : List α) : motive t := by
  induction hlen : t.length using Nat.strongRecOn generalizing t with
  | ind n ih =>
    by_cases hmem : nl ∈ t
    · obtain ⟨r, rest, rfl, hr⟩ := List.eq_append_cons_of_mem hmem
      have hshort : rest.length < n := by
        simp only [List.length_append, List.length_cons] at hlen
        omega
      exact record r rest hr (ih rest.length hshort rest rfl)
    · exact remainder t hmem

/-- A file that does not start with a terminator has a first record that starts as the file
does. -/
theorem allRecords_cons_of_ne (nl : α) {x : α} (hx : x ≠ nl) (t : List α) :
    ∃ r rs, allRecords nl (x :: t) = (x :: r) :: rs := by
  by_cases hmem : nl ∈ x :: t
  · obtain ⟨r, rest, heq, hr⟩ := List.eq_append_cons_of_mem hmem
    rw [heq, allRecords_append_cons hr]
    cases r with
    | nil => exact absurd (List.cons.inj heq).1 hx
    | cons y r => exact ⟨r, allRecords nl rest, by rw [(List.cons.inj heq).1]⟩
  · exact ⟨t, [], by simp [allRecords, records_of_not_mem hmem, remainder_of_not_mem hmem]⟩

/-- Records without terminators inside are read back as written. -/
theorem records_terminate {rs : List (List α)} (h : ∀ r ∈ rs, nl ∉ r) (t : List α) :
    records nl (terminate nl rs ++ t) = rs ++ records nl t := by
  induction rs with
  | nil => rfl
  | cons r rs ih =>
      rw [terminate_cons, List.append_assoc, List.cons_append,
        records_append_cons (h r List.mem_cons_self),
        ih fun r' hr' => h r' (List.mem_cons_of_mem _ hr')]
      rfl

theorem remainder_terminate {rs : List (List α)} (h : ∀ r ∈ rs, nl ∉ r) (t : List α) :
    remainder nl (terminate nl rs ++ t) = remainder nl t := by
  induction rs with
  | nil => rfl
  | cons r rs ih =>
      rw [terminate_cons, List.append_assoc, List.cons_append,
        remainder_append_cons (h r List.mem_cons_self),
        ih fun r' hr' => h r' (List.mem_cons_of_mem _ hr')]

theorem allRecords_terminate {rs : List (List α)} (h : ∀ r ∈ rs, nl ∉ r) :
    allRecords nl (terminate nl rs) = rs := by
  have hrecords := records_terminate h []
  have hremainder := remainder_terminate h []
  rw [List.append_nil] at hrecords hremainder
  simp [allRecords, hrecords, hremainder]

theorem allRecords_terminate_append {rs : List (List α)} (h : ∀ r ∈ rs, nl ∉ r) (t : List α) :
    allRecords nl (terminate nl rs ++ t) = rs ++ allRecords nl t := by
  simp only [allRecords, records_terminate h, remainder_terminate h, List.append_assoc]

/-- Every record has its terminator, and those inside the records come on top. -/
theorem count_terminate (rs : List (List α)) :
    (terminate nl rs).count nl = rs.length + (rs.map (List.count nl)).sum := by
  induction rs with
  | nil => rfl
  | cons r rs ih =>
      simp only [terminate_cons, List.count_append, List.count_cons_self, ih, List.length_cons,
        List.map_cons, List.sum_cons]
      omega

/-- There are as many terminators as records where no record contains one. -/
theorem count_terminate_eq_length_iff {rs : List (List α)} :
    (terminate nl rs).count nl = rs.length ↔ ∀ r ∈ rs, nl ∉ r := by
  rw [count_terminate, Nat.add_eq_left, List.sum_eq_zero_iff_forall_eq_nat, List.forall_mem_map]
  exact forall₂_congr fun r _ => List.count_eq_zero

/-- Files are equal where their records are, if the one has no terminators inside its records and
the other has at least as many records. -/
theorem terminate_eq_terminate_iff {rs rs' : List (List α)} (h : ∀ r ∈ rs, nl ∉ r)
    (hlength : rs.length ≤ rs'.length) : terminate nl rs' = terminate nl rs ↔ rs' = rs := by
  refine ⟨fun heq => ?_, congrArg (terminate nl)⟩
  have hcount := congrArg (List.count nl) heq
  rw [count_terminate_eq_length_iff.mpr h, count_terminate] at hcount
  have h' : ∀ r ∈ rs', nl ∉ r := count_terminate_eq_length_iff.mp (by
    rw [count_terminate]
    omega)
  rw [← allRecords_terminate h, ← allRecords_terminate h', heq]

/-- No record contains the terminator. -/
theorem not_mem_of_mem_records {t r : List α} (hr : r ∈ records nl t) : nl ∉ r := by
  induction t using recordsInduction nl with
  | remainder t h => simp [records_of_not_mem h] at hr
  | record r' t h ih =>
      rw [records_append_cons h] at hr
      rcases List.mem_cons.mp hr with rfl | hr
      · exact h
      · exact ih hr

theorem not_mem_remainder (t : List α) : nl ∉ remainder nl t := by
  induction t using recordsInduction nl with
  | remainder t h => rwa [remainder_of_not_mem h]
  | record r t h ih => rwa [remainder_append_cons h]

theorem not_mem_of_mem_allRecords {t r : List α} (hr : r ∈ allRecords nl t) : nl ∉ r := by
  rcases List.mem_append.mp hr with hr | hr
  · exact not_mem_of_mem_records hr
  · split at hr
    · simp at hr
    · rw [List.mem_singleton.mp hr]
      exact not_mem_remainder t

end Library
