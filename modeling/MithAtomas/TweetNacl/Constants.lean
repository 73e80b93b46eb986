import MithAtomas.Framework.EdwardsCurve
import MithAtomas.Framework.LucasTest
import MithAtomas.TweetNacl.Field

/-!
# The curve of the signatures

The constants of `third_party/tweetnacl/tweetnacl.c`, and the facts about them that the arithmetic
rests on: `2^255 - 19` is prime, `D` is no square modulo it and `I` is a square root of `-1`, so
that the curve has a group (`ed25519`); `X` and `Y` are a point of it (`basePoint`), whose multiple
by the number in `L` is zero (`order25519_nsmul_basePoint`).
-/

namespace MithAtomas.TweetNacl

open EdwardsCurve LucasTest RadixNumber

/-! ### The prime -/

/-- A generator for each prime, with the factors of one less than it. -/
private theorem generators :
    generates 32 2773320623 5 [2, 2437, 569003] ∧
    generates 40 72106336199 7 [2, 13, 2773320623] ∧
    generates 56 31757755568855353 10 [2, 2, 2, 3, 31, 107, 223, 4153, 430751] ∧
    generates 56 1919519569386763 2 [2, 3, 7, 19, 47, 47, 127, 8574133] ∧
    generates 117 75445702479781427272750846543864801 7
      [2, 2, 2, 2, 2, 3, 3, 5, 5, 75707, 72106336199, 1919519569386763] ∧
    generates 240 74058212732561358302231226437062788676166966415465897661863160754340907 2
      [2, 3, 353, 57467, 132049, 1923133, 31757755568855353,
        75445702479781427272750846543864801] ∧
    generates 256 prime25519 2 [2, 2, 3, 65147,
      74058212732561358302231226437062788676166966415465897661863160754340907] := by
  decide +kernel

/-- **The prime**, by the factors of one less than it. -/
theorem prime_prime25519 : prime25519.Prime := by
  obtain ⟨h₁, h₂, h₃, h₄, h₅, h₆, h₇⟩ := generators
  have p₁ := prime_of_generates _ _ _ _ (by norm_num) h₁
  have p₂ := prime_of_generates _ _ _ _ (by simp only [List.forall_mem_cons, p₁]; norm_num) h₂
  have p₃ := prime_of_generates _ _ _ _ (by norm_num) h₃
  have p₄ := prime_of_generates _ _ _ _ (by norm_num) h₄
  have p₅ := prime_of_generates _ _ _ _ (by simp only [List.forall_mem_cons, p₂, p₄]; norm_num) h₅
  have p₆ := prime_of_generates _ _ _ _ (by simp only [List.forall_mem_cons, p₃, p₅]; norm_num) h₆
  exact prime_of_generates _ _ _ _ (by simp only [List.forall_mem_cons, p₆]; norm_num) h₇

instance : Fact prime25519.Prime := ⟨prime_prime25519⟩

/-! ### The constants -/

/-- `gf0` -/
def gf0 : Gf :=
  Vector.replicate 16 0

/-- `gf1` -/
def gf1 : Gf :=
  #v[1, 0, 0, 0, 0, 0, 0, 0, 0, 0, 0, 0, 0, 0, 0, 0]

/-- `D` -/
def D : Gf :=
  #v[0x78a3, 0x1359, 0x4dca, 0x75eb, 0xd8ab, 0x4141, 0x0a4d, 0x0070, 0xe898, 0x7779, 0x4079, 0x8cc7,
    0xfe73, 0x2b6f, 0x6cee, 0x5203]

/-- `D2` -/
def D2 : Gf :=
  #v[0xf159, 0x26b2, 0x9b94, 0xebd6, 0xb156, 0x8283, 0x149a, 0x00e0, 0xd130, 0xeef3, 0x80f2, 0x198e,
    0xfce7, 0x56df, 0xd9dc, 0x2406]

/-- `X` -/
def X : Gf :=
  #v[0xd51a, 0x8f25, 0x2d60, 0xc956, 0xa7b2, 0x9525, 0xc760, 0x692c, 0xdc5c, 0xfdd6, 0xe231, 0xc0a4,
    0x53fe, 0xcd6e, 0x36d3, 0x2169]

/-- `Y` -/
def Y : Gf :=
  #v[0x6658, 0x6666, 0x6666, 0x6666, 0x6666, 0x6666, 0x6666, 0x6666, 0x6666, 0x6666, 0x6666, 0x6666,
    0x6666, 0x6666, 0x6666, 0x6666]

/-- `I` -/
def I : Gf :=
  #v[0xa0b0, 0x4a0e, 0x1b27, 0xc4ee, 0xe478, 0xad2f, 0x1806, 0x2f43, 0xd7a7, 0x3dfb, 0x0099, 0x2b4d,
    0xdf0b, 0x4fc1, 0x2480, 0x2b83]

theorem constants_within : Within (2 ^ 16) gf0 ∧ Within (2 ^ 16) gf1 ∧ Within (2 ^ 16) D ∧
    Within (2 ^ 16) D2 ∧ Within (2 ^ 16) X ∧ Within (2 ^ 16) Y ∧ Within (2 ^ 16) I := by
  unfold Within
  decide +kernel

/-- What the limbs of the constants stand for, computed. -/
private theorem constants_num : num gf0 = 0 ∧ num gf1 = 1 ∧ ((num D).toNat : ℤ) = num D ∧
    (num D2 - 2 * num D) % prime25519 = 0 ∧ (num I * num I - -1) % prime25519 = 0 ∧
      (num D * 121666 - -121665) % prime25519 = 0 ∧
        (num Y ^ 2 - num X ^ 2 - (1 + num D * num X ^ 2 * num Y ^ 2)) % prime25519 = 0 := by
  decide +kernel

@[simp] theorem val_gf0 : val gf0 = 0 := by
  rw [val, constants_num.1, Int.cast_zero]

@[simp] theorem val_gf1 : val gf1 = 1 := by
  rw [val, constants_num.2.1, Int.cast_one]

/-- Numbers that are the same modulo the prime. -/
private theorem cast_eq_of_emod {x y : ℤ} (h : (x - y) % prime25519 = 0) : (x : Fp) = y := by
  rw [← sub_eq_zero, ← Int.cast_sub, ZMod.intCast_zmod_eq_zero_iff_dvd]
  exact Int.dvd_of_emod_eq_zero h

theorem val_D2 : val D2 = 2 * val D := by
  have hcast := cast_eq_of_emod constants_num.2.2.2.1
  rw [val, hcast, Int.cast_mul, Int.cast_ofNat, val]

theorem val_I_mul_self : val I * val I = -1 := by
  have hcast := cast_eq_of_emod constants_num.2.2.2.2.1
  rwa [Int.cast_mul, Int.cast_neg, Int.cast_one] at hcast

/-- `D` is `-121665/121666`. -/
theorem val_D_mul : val D * 121666 = -121665 := by
  have hcast := cast_eq_of_emod constants_num.2.2.2.2.2.1
  rwa [Int.cast_mul, Int.cast_neg, Int.cast_ofNat, Int.cast_ofNat] at hcast

theorem val_X_Y : val Y ^ 2 - val X ^ 2 = 1 + val D * val X ^ 2 * val Y ^ 2 := by
  have hcast := cast_eq_of_emod constants_num.2.2.2.2.2.2
  push_cast at hcast
  exact hcast

theorem not_isSquare_val_D : ¬ IsSquare (val D) := by
  have hnat : val D = ((num D).toNat : Fp) := by
    rw [val, ← Int.cast_natCast, constants_num.2.2.1]
  have hpowers : (num D).toNat % prime25519 ≠ 0 ∧
      powMod prime25519 (num D).toNat 256 (prime25519 / 2) ≠ 1 := by
    decide +kernel
  rw [hnat]
  refine not_isSquare_of_powMod 256 prime25519 _ (by norm_num [prime25519]) ?_ hpowers.2
  rw [Ne, ZMod.natCast_eq_zero_iff, Nat.dvd_iff_mod_eq_zero]
  exact hpowers.1

/-! ### The curve -/

theorem two_ne_zero_field : (2 : Fp) ≠ 0 := by
  have h : ¬ prime25519 ∣ 2 := by norm_num [prime25519]
  rw [← Nat.cast_ofNat, Ne, ZMod.natCast_eq_zero_iff]
  exact h

/-- The curve on which the signatures are made. -/
def ed25519 : Curve Fp where
  d := val D
  two_ne_zero := two_ne_zero_field
  isSquare_neg_one := ⟨val I, val_I_mul_self.symm⟩
  not_isSquare_d := not_isSquare_val_D

/-- `X` and `Y`. -/
def basePoint : Point ed25519 where
  x := val X
  y := val Y
  on_curve := val_X_Y

/-- The number in `L`. -/
def order25519 : ℕ :=
  2 ^ 252 + 27742317777372353535851937790883648493

/-- **The order** of the base point. -/
theorem order25519_nsmul_basePoint : order25519 • basePoint = 0 := by
  let p : Extended ℤ := ⟨num X, num Y, 1, num X * num Y⟩
  have hp : Represents (p.map Int.cast) basePoint := by
    have h := represents_affine basePoint
    simpa [p, Extended.map, basePoint, val] using h
  have hk : ((2 * num D : ℤ) : Fp) = 2 * ed25519.d := by
    rw [Int.cast_mul, Int.cast_ofNat]
    rfl
  have h := Extended.represents_nsmulMod hk hp
    (show order25519 < 2 ^ 253 by norm_num [order25519])
  -- 253 doublings and the additions between them
  have hzero : (Extended.nsmulMod prime25519 (2 * num D) p 253 order25519).X = 0 ∧
      (Extended.nsmulMod prime25519 (2 * num D) p 253 order25519).Y =
        (Extended.nsmulMod prime25519 (2 * num D) p 253 order25519).Z := by
    decide +kernel
  refine h.eq_zero ?_ ?_
  · show ((Extended.nsmulMod _ _ _ _ _).X : Fp) = 0
    rw [hzero.1, Int.cast_zero]
  · show ((Extended.nsmulMod _ _ _ _ _).Y : Fp) = ((Extended.nsmulMod _ _ _ _ _).Z : Fp)
    rw [hzero.2]

end MithAtomas.TweetNacl
