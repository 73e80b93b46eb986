import Mathlib

/-!
# Schnorr signatures

The equation of Schnorr signatures in any commutative group, with a base of finite order: who knows
the number of a key can sign (`accepts_honest`), the response counts only modulo the order of the
base (`accepts_congr`), and what the neutral element accepts as a key (`accepts_zero_iff`).
-/

namespace SchnorrSignature

variable {G : Type} [AddCommGroup G] {B A T : G} {n h s : ℕ}

/-- The commitment `T` and the response `s` to the challenge `h`, under the key `A`. -/
def Accepts (B A T : G) (h s : ℕ) : Prop :=
  T = s • B - h • A

theorem nsmul_congr (hn : n • B = 0) {s s' : ℕ} (hs : s ≡ s' [MOD n]) : s • B = s' • B :=
  nsmul_eq_nsmul_iff_modEq.mpr (hs.of_dvd (addOrderOf_dvd_of_nsmul_eq_zero hn))

/-- **Completeness.** -/
theorem accepts_honest (hn : n • B = 0) {r a : ℕ} (hs : s ≡ r + h * a [MOD n]) :
    Accepts B (a • B) (r • B) h s := by
  unfold Accepts
  rw [nsmul_congr hn hs, add_nsmul, mul_nsmul', add_sub_cancel_right]

/-- **A response has many names.** -/
theorem accepts_congr (hn : n • B = 0) {s' : ℕ} (hs : s ≡ s' [MOD n]) :
    Accepts B A T h s ↔ Accepts B A T h s' := by
  unfold Accepts
  rw [nsmul_congr hn hs]

/-- Under the neutral element the challenge does not count. -/
theorem accepts_zero_iff : Accepts B 0 T h s ↔ T = s • B := by
  unfold Accepts
  rw [nsmul_zero, sub_zero]

end SchnorrSignature
