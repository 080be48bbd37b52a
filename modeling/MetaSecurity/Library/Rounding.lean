import Mathlib.Data.Nat.Basic
import Mathlib.Order.Bounds.Basic
import Mathlib.Tactic.Ring

/-!
# Rounding up to a multiple

The smallest multiple of an alignment that is not below a number, and the same for a common multiple
of two powers of one base, where the larger power is the common alignment.
-/

namespace Library

/-- `n` rounded up to a multiple of `a`. -/
def roundUp (n a : Nat) : Nat :=
  (n + a - 1) / a * a

theorem dvd_roundUp (n a : Nat) : a ∣ roundUp n a :=
  Nat.dvd_mul_left a _

theorem le_roundUp {a : Nat} (ha : 0 < a) (n : Nat) : n ≤ roundUp n a := by
  have hmod := Nat.mod_lt (n + a - 1) ha
  have hdiv := Nat.div_add_mod (n + a - 1) a
  rw [roundUp, Nat.mul_comm]
  omega

/-- Rounding up gives the smallest multiple that is large enough. -/
theorem isLeast_roundUp {a : Nat} (ha : 0 < a) (n : Nat) :
    IsLeast {m | n ≤ m ∧ a ∣ m} (roundUp n a) := by
  refine ⟨⟨le_roundUp ha n, dvd_roundUp n a⟩, ?_⟩
  rintro m ⟨hle, k, rfl⟩
  rw [roundUp, Nat.mul_comm]
  refine Nat.mul_le_mul_left a (Nat.lt_succ_iff.mp ((Nat.div_lt_iff_lt_mul ha).mpr ?_))
  have hsucc : k.succ * a = a * k + a := by
    rw [Nat.succ_eq_add_one]
    ring
  omega

/-- Of two powers of one base the larger one is the common alignment. -/
theorem dvd_max_pow_iff {base a b m : Nat} (hbase : 0 < base) :
    max (base ^ a) (base ^ b) ∣ m ↔ base ^ a ∣ m ∧ base ^ b ∣ m := by
  rcases le_total a b with h | h
  · have hdvd := pow_dvd_pow base h
    rw [max_eq_right (Nat.pow_le_pow_right hbase h)]
    exact ⟨fun hm => ⟨hdvd.trans hm, hm⟩, And.right⟩
  · have hdvd := pow_dvd_pow base h
    rw [max_eq_left (Nat.pow_le_pow_right hbase h)]
    exact ⟨fun hm => ⟨hm, hdvd.trans hm⟩, And.left⟩

/-- Rounding up to the larger of two powers gives their smallest common multiple that is large
enough. -/
theorem isLeast_roundUp_pow {base : Nat} (hbase : 0 < base) (a b n : Nat) :
    IsLeast {m | n ≤ m ∧ base ^ a ∣ m ∧ base ^ b ∣ m}
      (roundUp n (max (base ^ a) (base ^ b))) := by
  have hset : {m | n ≤ m ∧ base ^ a ∣ m ∧ base ^ b ∣ m} =
      {m | n ≤ m ∧ max (base ^ a) (base ^ b) ∣ m} :=
    Set.ext fun m => and_congr_right fun _ => (dvd_max_pow_iff hbase).symm
  rw [hset]
  exact isLeast_roundUp (lt_max_of_lt_left (Nat.pow_pos hbase)) n

end Library
