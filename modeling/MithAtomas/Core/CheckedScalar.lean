import MithAtomas.Core.Scalar
import MithAtomas.Framework.Definedness

/-!
# Checked conversions and sums

Converting a number to an `int` that does not fit is undefined in the source, and so is a sum of two
`int`s that leaves the range. `int32` gives such a number a value all the same; the functions that
have a `?` give none. `Computes` relates the two: a function with a `?` has a result where all that
it converts and adds fits, and then it is that of the function without.
-/

namespace MithAtomas

open Definedness

/-- An `int`, where there is no overflow. -/
def checked (z : ℤ) : Option ℤ :=
  if FitsInt32 z then some z else none

theorem checked_eq_some_iff {z z' : ℤ} : checked z = some z' ↔ z' = z ∧ FitsInt32 z := by
  unfold checked
  split
  · next hfits => rw [Option.some.injEq, eq_comm, and_iff_left hfits]
  · next hno => exact iff_of_false (by simp) fun h => hno h.2

theorem computes_checked (z : ℤ) : Computes (checked z) (int32 z) (FitsInt32 z) where
  eq_some_iff a := by
    rw [checked_eq_some_iff]
    exact and_congr_left fun hfits => by rw [int32_of_fits hfits]

/-- An `int` that a loop can count to, from its negative on. -/
def CountsTo (z : ℤ) : Prop :=
  FitsInt32 (-z) ∧ (0 ≤ z → FitsInt32 (z + 1))

instance (z : ℤ) : Decidable (CountsTo z) :=
  inferInstanceAs (Decidable (_ ∧ _))

/-- Scalars whose conversions to `int` are checked. -/
class CheckedScalar (F : Type) extends Scalar F where
  /-- `static_cast<std::int32_t>(std::floor(x))`, where it is defined -/
  floorInt32? : F → Option ℤ
  /-- `static_cast<int>(std::ceil(x))`, where it is defined -/
  ceilInt32? : F → Option ℤ
  not_le_of_pos : ∀ x : F, 0 < x → ¬ x ≤ 0

/-- In exact arithmetic only the range matters. -/
instance : CheckedScalar ℚ where
  floorInt32? q := checked ⌊q⌋
  ceilInt32? q := checked ⌈q⌉
  not_le_of_pos _ h := not_le.mpr h

end MithAtomas
