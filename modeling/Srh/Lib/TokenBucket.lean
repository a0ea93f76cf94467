import Mathlib.Algebra.Order.Field.Basic
import Mathlib.Tactic.Linarith
import Mathlib.Tactic.Ring

/-! The arithmetic of a lazily refilled token bucket over any ordered field.
Balances may be negative and refilling saturates at the capacity. -/
namespace Srh.Lib.TokenBucket
variable {F : Type} [Field F] [LinearOrder F]

def refill (rate capacity balance elapsed : F) : F := min (balance + elapsed * rate) capacity

variable {rate capacity balance elapsed : F}

theorem refill_le_capacity : refill rate capacity balance elapsed ≤ capacity := min_le_right _ _

theorem refill_le_add : refill rate capacity balance elapsed ≤ balance + elapsed * rate := min_le_left _ _

theorem refill_zero (h : balance ≤ capacity) : refill rate capacity balance 0 = balance := by
  rw [refill, zero_mul, add_zero, min_eq_left h]

variable [IsStrictOrderedRing F]

theorem refill_mono {balance' : F} (h : balance ≤ balance') :
    refill rate capacity balance elapsed ≤ refill rate capacity balance' elapsed :=
  min_le_min_right _ (by linarith)

/-- Refilling is path independent: an extra refill on the way changes nothing. -/
theorem refill_refill (hr : 0 ≤ rate) (first second : F) (hs : 0 ≤ second) :
    refill rate capacity (refill rate capacity balance first) second =
      refill rate capacity balance (first + second) := by
  have hg : 0 ≤ second * rate := mul_nonneg hs hr
  simp only [refill]
  rcases le_total (balance + first * rate) capacity with h | h
  · rw [min_eq_left h]
    congr 1
    ring
  · rw [min_eq_right h, min_eq_right (by linarith), min_eq_right (by linarith)]

/-- What was ever credited is the initial capacity and the time since the start,
so a balance that accounts for everything spent keeps doing so when refilled. -/
theorem refill_accounted {spent start updated now : F}
    (h : balance + spent ≤ capacity + rate * (updated - start)) :
    refill rate capacity balance (now - updated) + spent ≤ capacity + rate * (now - start) := by
  have hb : refill rate capacity balance (now - updated) ≤ balance + (now - updated) * rate :=
    refill_le_add
  linarith

end Srh.Lib.TokenBucket
