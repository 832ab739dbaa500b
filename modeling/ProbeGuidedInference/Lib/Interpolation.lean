import Mathlib.Algebra.Order.Floor.Semiring
import Mathlib.Tactic.Ring
import Mathlib.Tactic.GCongr

/- Linear interpolation of a sequence. Between two neighbouring indices the value runs
   along the straight line between the two terms; for a monotone sequence the
   interpolation is monotone, also from one piece to another (`interpolate_mono`), and it
   meets the sequence at the indices (`interpolate_natCast`). -/
namespace Interpolation

variable {K : Type*} [Field K] [LinearOrder K] [IsStrictOrderedRing K] [FloorSemiring K]

/-- The term at the integer part of `x`, and from there towards the next one. -/
def interpolate (a : ℕ → K) (x : K) : K :=
  a ⌊x⌋₊ + (a (⌊x⌋₊ + 1) - a ⌊x⌋₊) * (x - ⌊x⌋₊)

variable {a : ℕ → K} {x y t : K}

theorem interpolate_add (n : ℕ) (h₀ : 0 ≤ t) (h₁ : t < 1) :
    interpolate a (n + t) = a n + (a (n + 1) - a n) * t := by
  have hfloor : ⌊(n : K) + t⌋₊ = n := by
    rw [add_comm, Nat.floor_add_natCast h₀, (Nat.floor_eq_zero).mpr h₁, zero_add]
  rw [interpolate, hfloor]
  ring

@[simp] theorem interpolate_natCast (n : ℕ) : interpolate a (n : K) = a n := by
  have h := interpolate_add (a := a) n le_rfl (zero_lt_one (α := K))
  simpa using h

theorem le_interpolate (ha : Monotone a) (hx : 0 ≤ x) : a ⌊x⌋₊ ≤ interpolate a x := by
  have hstep : 0 ≤ a (⌊x⌋₊ + 1) - a ⌊x⌋₊ := sub_nonneg.mpr (ha (Nat.le_succ _))
  have hpart : 0 ≤ x - ⌊x⌋₊ := sub_nonneg.mpr (Nat.floor_le hx)
  exact le_add_of_nonneg_right (mul_nonneg hstep hpart)

theorem interpolate_le (ha : Monotone a) (x : K) : interpolate a x ≤ a (⌊x⌋₊ + 1) := by
  have hstep : 0 ≤ a (⌊x⌋₊ + 1) - a ⌊x⌋₊ := sub_nonneg.mpr (ha (Nat.le_succ _))
  have hpart : x - ⌊x⌋₊ ≤ 1 := by
    rw [sub_le_iff_le_add, add_comm]
    exact (Nat.lt_floor_add_one x).le
  calc interpolate a x ≤ a ⌊x⌋₊ + (a (⌊x⌋₊ + 1) - a ⌊x⌋₊) * 1 := by
        unfold interpolate
        gcongr
    _ = a (⌊x⌋₊ + 1) := by ring

/-- **Monotone sequences interpolate to monotone functions.** -/
theorem interpolate_mono (ha : Monotone a) (hx : 0 ≤ x) (hxy : x ≤ y) :
    interpolate a x ≤ interpolate a y := by
  rcases (Nat.floor_mono hxy).eq_or_lt with heq | hlt
  · -- on one piece: the line rises
    have hstep : 0 ≤ a (⌊y⌋₊ + 1) - a ⌊y⌋₊ := sub_nonneg.mpr (ha (Nat.le_succ _))
    unfold interpolate
    rw [heq]
    gcongr
  · calc interpolate a x ≤ a (⌊x⌋₊ + 1) := interpolate_le ha x
      _ ≤ a ⌊y⌋₊ := ha hlt
      _ ≤ interpolate a y := le_interpolate ha (hx.trans hxy)

end Interpolation
