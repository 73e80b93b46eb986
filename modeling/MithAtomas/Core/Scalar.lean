import Mathlib

/-!
# Scalars

The code computes in `float`. Nothing about the order in which systems run depends on the laws of
arithmetic, so the model is written over any type with the operations the code uses (`Scalar`), and
statements about geometry are made over the instance at `ℚ`, where the operations are exact.

`floor` and `ceil` give an integer; `int32` is the conversion of such an integer, or of a sum of two
`int`s, to 32 bits.
-/

namespace MithAtomas

/-- The operations of `float` that the code uses. -/
class Scalar (F : Type) extends
    Zero F, One F, NatCast F, Add F, Sub F, Mul F, Div F, Neg F, LT F, LE F where
  decidableLT : DecidableLT F
  decidableLE : DecidableLE F
  /-- `std::fabs` -/
  abs : F → F
  /-- `std::floor`, as an integer -/
  floor : F → ℤ
  /-- `std::ceil`, as an integer -/
  ceil : F → ℤ

attribute [reducible, instance] Scalar.decidableLT Scalar.decidableLE

/-- Exact arithmetic. -/
instance : Scalar ℚ where
  decidableLT := inferInstance
  decidableLE := inferInstance
  abs := fun q => |q|
  floor := Int.floor
  ceil := Int.ceil

/-- What the systems need beyond arithmetic: `std::sqrt`, and the 32 bits of a number. -/
class FloatScalar (F : Type) extends Scalar F where
  sqrt : F → F
  /-- the number with these bits -/
  ofBits : UInt32 → F
  /-- the bits of the number -/
  toBits : F → UInt32

/-- Rational numbers with the bits of the normal `float`s, rounded towards zero; the square root is
exact on squares. -/
instance : FloatScalar ℚ where
  sqrt := fun q => Nat.sqrt (q.num.toNat * q.den) / q.den
  ofBits := fun b =>
    let mantissa : ℕ := (b &&& 0x7FFFFF).toNat
    let exponent : ℕ := ((b >>> 23) &&& 0xFF).toNat
    let magnitude : ℚ :=
      if exponent = 0 then mantissa * 2 ^ (-149 : ℤ)
      else (2 ^ 23 + mantissa) * 2 ^ ((exponent : ℤ) - 150)
    if b >>> 31 = 0 then magnitude else -magnitude
  toBits := fun q =>
    if q = 0 then 0
    else
      let exponent : ℤ := Int.log 2 |q|
      let mantissa : ℤ := ⌊|q| * 2 ^ (23 - exponent)⌋ - 2 ^ 23
      (if q < 0 then (0x80000000 : UInt32) else 0) |||
        (UInt32.ofNat (exponent + 127).toNat <<< 23) ||| UInt32.ofNat mantissa.toNat

@[simp] theorem scalar_floor_rat (q : ℚ) : Scalar.floor q = ⌊q⌋ := rfl

@[simp] theorem scalar_ceil_rat (q : ℚ) : Scalar.ceil q = ⌈q⌉ := rfl

/-- An integer as `std::int32_t`, wrapped to two's complement. -/
def int32 (z : ℤ) : ℤ :=
  z.bmod (2 ^ 32)

/-- The integer is a value of `std::int32_t`. -/
def FitsInt32 (z : ℤ) : Prop :=
  -2 ^ 31 ≤ z ∧ z < 2 ^ 31

instance (z : ℤ) : Decidable (FitsInt32 z) :=
  inferInstanceAs (Decidable (_ ∧ _))

theorem int32_of_fits {z : ℤ} (h : FitsInt32 z) : int32 z = z := by
  obtain ⟨hlo, hhi⟩ := h
  refine Int.bmod_eq_of_le ?_ ?_ <;> omega

/-- Sums that differ by less than `2 ^ 32` are still different after wrapping. -/
theorem int32_add_inj {c d d' : ℤ} (h : int32 (c + d) = int32 (c + d'))
    (hlt : |d - d'| < 2 ^ 32) : d = d' := by
  have hemod : (c + d) % (2 ^ 32 : ℕ) = (c + d') % (2 ^ 32 : ℕ) := by
    rw [← Int.bmod_emod, ← Int.bmod_emod (x := c + d')]
    exact congrArg (· % ((2 ^ 32 : ℕ) : ℤ)) h
  rw [abs_lt] at hlt
  norm_num at hemod
  omega

end MithAtomas
