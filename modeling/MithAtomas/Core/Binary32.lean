import MithAtomas.Core.CheckedScalar
import MithAtomas.Framework.BinaryFloat

/-!
# `float`

`float` as the code has it: `binary32`, with its special values, rounded after each operation. The
model's definitions can be read over it (`Scalar Binary32`); what leaves the range of the `float`s
there, or of the integers, is here looked at before it is converted.

A conversion to `std::int32_t` is defined for a finite number whose integer part fits.
`floor_round_fits_iff` and `ceil_round_fits_iff` say for which exact results it is, before they are
rounded.
-/

namespace MithAtomas

open BinaryFloat

/-- 24 bits, from the least subnormal number on. -/
def binary32 : Format where
  precision := 24
  minExp := -149
  maxExp := 128
  one_lt := by decide
  minExp_le := by decide

abbrev Binary32 := Binary binary32

namespace Binary32

/-- `std::floor`, of a finite number. -/
def floor? (x : Binary32) : Option ℤ :=
  x.value?.map Int.floor

/-- `std::ceil`, of a finite number. -/
def ceil? (x : Binary32) : Option ℤ :=
  x.value?.map Int.ceil

end Binary32

instance : Scalar Binary32 where
  decidableLT := inferInstance
  decidableLE := inferInstance
  abs := Binary.abs
  floor x := x.floor?.getD 0
  ceil x := x.ceil?.getD 0

namespace Binary32

/-! ### Bits -/

/-- `m` times a power of two, with an exponent that the bits can tell. -/
def scaled (m : ℕ) (e : ℤ) (hm : m < 2 ^ 24) (he : -149 ≤ e) (he' : e ≤ 104) :
    Magnitude binary32 where
  val := m * 2 ^ e
  representable := by
    refine ⟨?_, m, e, hm, he, rfl⟩
    have hpow : (0 : ℚ) < 2 ^ e := zpow_pos two_pos e
    have hcast : (m : ℚ) < 2 ^ (24 : ℤ) := by exact_mod_cast hm
    calc (m : ℚ) * 2 ^ e < 2 ^ (24 : ℤ) * 2 ^ e := mul_lt_mul_of_pos_right hcast hpow
      _ = 2 ^ (24 + e) := (zpow_add₀ two_ne_zero _ _).symm
      _ ≤ 2 ^ (128 : ℤ) := zpow_le_zpow_right₀ one_le_two (by omega)

/-- The number with these bits: the sign, 8 bits of exponent and 23 of the fraction. -/
def ofBits (b : UInt32) : Binary32 :=
  let negative := decide (2 ^ 31 ≤ b.toNat)
  let exponent := b.toNat / 2 ^ 23 % 2 ^ 8
  let fraction := b.toNat % 2 ^ 23
  have hfraction : fraction < 2 ^ 23 := Nat.mod_lt _ (by decide)
  -- the largest exponent is for infinities and NaN
  if hspecial : exponent = 255 then
    if fraction = 0 then .infinite negative else .nan
  -- the smallest one for numbers without a leading one
  else if hsubnormal : exponent = 0 then
    .finite negative (scaled fraction (-149) (by omega) le_rfl (by decide))
  else
    have hexponent : exponent < 2 ^ 8 := Nat.mod_lt _ (by decide)
    .finite negative (scaled (2 ^ 23 + fraction) (exponent - 150) (by omega) (by omega) (by omega))

/-! ### Conversions -/

/-- `static_cast<std::int32_t>(std::floor(x))`, where it is defined. -/
def floorInt32? (x : Binary32) : Option ℤ :=
  x.floor?.bind checked

/-- `static_cast<int>(std::ceil(x))`, where it is defined. -/
def ceilInt32? (x : Binary32) : Option ℤ :=
  x.ceil?.bind checked

theorem floorInt32?_eq_some_iff {x : Binary32} {z : ℤ} :
    floorInt32? x = some z ↔ ∃ q, x.value? = some q ∧ z = ⌊q⌋ ∧ FitsInt32 ⌊q⌋ := by
  unfold floorInt32? floor?
  cases x.value? with
  | none => simp
  | some q => simp [checked_eq_some_iff]

theorem ceilInt32?_eq_some_iff {x : Binary32} {z : ℤ} :
    ceilInt32? x = some z ↔ ∃ q, x.value? = some q ∧ z = ⌈q⌉ ∧ FitsInt32 ⌈q⌉ := by
  unfold ceilInt32? ceil?
  cases x.value? with
  | none => simp
  | some q => simp [checked_eq_some_iff]

/-- Where the conversion is defined, it does not wrap. -/
theorem int32_floor {x : Binary32} {z : ℤ} (h : floorInt32? x = some z) :
    int32 (Scalar.floor x) = z := by
  obtain ⟨q, hq, rfl, hfits⟩ := floorInt32?_eq_some_iff.mp h
  have hfloor : Scalar.floor x = ⌊q⌋ := by
    show (x.value?.map Int.floor).getD 0 = ⌊q⌋
    rw [hq]
    rfl
  rw [hfloor, int32_of_fits hfits]

theorem int32_ceil {x : Binary32} {z : ℤ} (h : ceilInt32? x = some z) :
    int32 (Scalar.ceil x) = z := by
  obtain ⟨q, hq, rfl, hfits⟩ := ceilInt32?_eq_some_iff.mp h
  have hceil : Scalar.ceil x = ⌈q⌉ := by
    show (x.value?.map Int.ceil).getD 0 = ⌈q⌉
    rw [hq]
    rfl
  rw [hceil, int32_of_fits hfits]

end Binary32

instance : CheckedScalar Binary32 where
  floorInt32? := Binary32.floorInt32?
  ceilInt32? := Binary32.ceilInt32?
  not_le_of_pos _ h := Binary.not_le_of_lt h

namespace Binary32

/-! ### The range of a rounded result -/

/-- To nearest, with the sign. -/
def nearest (q : ℚ) : ℚ :=
  signed (decide (q < 0)) (binary32.roundMag |q|)

variable {q : ℚ} (s : Bool)

theorem nearest_signed (h0 : 0 ≤ q) : nearest (signed s q) = signed s (binary32.roundMag q) := by
  rcases h0.eq_or_lt with rfl | hpos
  · cases s <;> simp [nearest, signed, Format.roundMag_zero]
  · cases s with
    | false => simp [nearest, signed, not_lt.mpr h0, abs_of_nonneg h0]
    | true => simp [nearest, signed, hpos, abs_of_nonneg h0]

/-- Rounded to less than 2^31. -/
theorem roundMag_lt_two_pow_31 (h0 : 0 ≤ q) : binary32.roundMag q < 2 ^ 31 ↔ q < 2 ^ 31 - 64 := by
  have hiff := Format.roundMag_lt_iff (f := binary32) (k := 31) (by decide) h0
  have hexp : (31 : ℤ) - ((binary32.precision : ℕ) : ℤ) - 1 = 6 := rfl
  rw [hexp] at hiff
  norm_num at hiff ⊢
  exact hiff

/-- Rounded to 2^31 at most. -/
theorem roundMag_le_two_pow_31 (h0 : 0 ≤ q) :
    binary32.roundMag q ≤ 2 ^ 31 ↔ q ≤ 2 ^ 31 + 128 := by
  have hiff := Format.roundMag_le_iff (f := binary32) (k := 31) (by decide) h0
  have hexp : (31 : ℤ) - ((binary32.precision : ℕ) : ℤ) = 7 := rfl
  rw [hexp] at hiff
  norm_num at hiff ⊢
  exact hiff

/-- There is no `float` between 2^31 - 128 and 2^31. -/
theorem roundMag_le_of_lt (h0 : 0 ≤ q) (h : q < 2 ^ 31 - 64) :
    binary32.roundMag q ≤ 2 ^ 31 - 128 := by
  have hexp : (31 : ℤ) - ((binary32.precision : ℕ) : ℤ) = 7 := rfl
  have hle := Format.roundMag_le_pred (f := binary32) (k := 31) (by decide) h0
    (by rw [hexp]; norm_num at h ⊢; exact h)
  rw [hexp] at hle
  norm_num at hle ⊢
  exact hle

theorem two_pow_31_lt : (2 : ℚ) ^ 31 < 2 ^ binary32.maxExp := by
  show (2 : ℚ) ^ 31 < 2 ^ (128 : ℤ)
  norm_num

/-- The exact results that `floorInt32?` is defined for. -/
def InFloorRange (z : ℚ) : Prop :=
  -(2 ^ 31 + 128) ≤ z ∧ z < 2 ^ 31 - 64

instance (z : ℚ) : Decidable (InFloorRange z) :=
  inferInstanceAs (Decidable (_ ∧ _))

theorem fits_floor_iff (h0 : 0 ≤ q) :
    FitsInt32 ⌊signed s (binary32.roundMag q)⌋ ↔ InFloorRange (signed s q) := by
  have hround := Format.roundMag_nonneg (f := binary32) h0
  unfold FitsInt32 InFloorRange
  rw [Int.le_floor, Int.floor_lt]
  push_cast
  cases s with
  | false =>
    show -2 ^ 31 ≤ binary32.roundMag q ∧ binary32.roundMag q < 2 ^ 31 ↔ _ ≤ q ∧ q < _
    rw [roundMag_lt_two_pow_31 h0, and_iff_right (by linarith), and_iff_right (by linarith)]
  | true =>
    show -2 ^ 31 ≤ -binary32.roundMag q ∧ -binary32.roundMag q < 2 ^ 31 ↔ _ ≤ -q ∧ -q < _
    rw [neg_le_neg_iff, neg_le_neg_iff, roundMag_le_two_pow_31 h0, and_iff_left (by linarith),
      and_iff_left (by linarith)]

/-- **The floor of a rounded result.** -/
theorem floorInt32?_round (h0 : 0 ≤ q) {z : ℤ} :
    floorInt32? (Binary.round s q h0) = some z ↔
      z = ⌊nearest (signed s q)⌋ ∧ InFloorRange (signed s q) := by
  rw [floorInt32?_eq_some_iff, Binary.value?_round, nearest_signed s h0, ← fits_floor_iff s h0]
  constructor
  · rintro ⟨v, hv, rfl, hfits⟩
    split at hv
    · obtain rfl := Option.some.inj hv
      exact ⟨rfl, hfits⟩
    · cases hv
  · rintro ⟨rfl, hfits⟩
    refine ⟨_, if_pos ?_, rfl, hfits⟩
    have hle : binary32.roundMag q ≤ 2 ^ 31 := by
      rw [fits_floor_iff s h0] at hfits
      rw [roundMag_le_two_pow_31 h0]
      cases s with
      | false => exact (hfits.2.trans (by norm_num)).le
      | true => exact neg_le_neg_iff.mp hfits.1
    exact hle.trans_lt two_pow_31_lt

theorem countsTo_ceil_iff (h0 : 0 ≤ q) :
    FitsInt32 ⌈signed s (binary32.roundMag q)⌉ ∧ CountsTo ⌈signed s (binary32.roundMag q)⌉ ↔
      q < 2 ^ 31 - 64 := by
  have hround := Format.roundMag_nonneg (f := binary32) h0
  rw [← roundMag_lt_two_pow_31 h0]
  cases s with
  | false =>
    show FitsInt32 ⌈binary32.roundMag q⌉ ∧ CountsTo ⌈binary32.roundMag q⌉ ↔ _
    have hceil : 0 ≤ ⌈binary32.roundMag q⌉ := Int.ceil_nonneg hround
    constructor
    · rintro ⟨⟨-, hlt⟩, -⟩
      exact (Int.le_ceil _).trans_lt (by exact_mod_cast hlt)
    · intro hlt
      -- the next smaller number is an integer
      have hle := roundMag_le_of_lt h0 ((roundMag_lt_two_pow_31 h0).mp hlt)
      have hbound : ⌈binary32.roundMag q⌉ ≤ 2 ^ 31 - 128 := Int.ceil_le.mpr (by exact_mod_cast hle)
      unfold CountsTo FitsInt32
      omega
  | true =>
    show FitsInt32 ⌈-binary32.roundMag q⌉ ∧ CountsTo ⌈-binary32.roundMag q⌉ ↔ _
    rw [Int.ceil_neg]
    have hfloor : 0 ≤ ⌊binary32.roundMag q⌋ := Int.floor_nonneg.mpr hround
    have hiff : ⌊binary32.roundMag q⌋ < 2 ^ 31 ↔ binary32.roundMag q < 2 ^ 31 := by
      rw [Int.floor_lt]
      norm_num
    rw [← hiff]
    unfold CountsTo FitsInt32
    omega

/-- **The ceiling of a rounded result**, if a loop can count to it. -/
theorem ceilInt32?_round (h0 : 0 ≤ q) {z : ℤ} :
    ceilInt32? (Binary.round s q h0) = some z ∧ CountsTo z ↔
      z = ⌈nearest (signed s q)⌉ ∧ |signed s q| < 2 ^ 31 - 64 := by
  have habs : |signed s q| = q := by
    cases s with
    | false => exact abs_of_nonneg h0
    | true => exact (abs_neg q).trans (abs_of_nonneg h0)
  rw [ceilInt32?_eq_some_iff, Binary.value?_round, nearest_signed s h0, habs,
    ← countsTo_ceil_iff s h0]
  constructor
  · rintro ⟨⟨v, hv, rfl, hfits⟩, hneg⟩
    split at hv
    · obtain rfl := Option.some.inj hv
      exact ⟨rfl, hfits, hneg⟩
    · cases hv
  · rintro ⟨rfl, hboth⟩
    refine ⟨⟨_, if_pos ?_, rfl, hboth.1⟩, hboth.2⟩
    have hlt := (roundMag_lt_two_pow_31 h0).mpr ((countsTo_ceil_iff s h0).mp hboth)
    exact hlt.trans two_pow_31_lt

/-! ### Products and quotients -/

variable {x y : Binary32} {z : ℤ}

/-- **The floor of a product.** -/
theorem floorInt32?_mul : floorInt32? (x * y) = some z ↔
    ∃ a ∈ x.value?, ∃ b ∈ y.value?, z = ⌊nearest (a * b)⌋ ∧ InFloorRange (a * b) := by
  -- NaN and infinities first: such a product is one again
  by_cases hspecial : x.value? = none ∨ y.value? = none
  · have hnone : floorInt32? (x * y) = none := by
      unfold floorInt32? floor?
      rw [Binary.value?_mul_eq_none hspecial]
      rfl
    rw [hnone]
    refine iff_of_false (Option.some_ne_none z).symm ?_
    rintro ⟨a, ha, b, hb, -⟩
    rw [Option.mem_def.mp ha, Option.mem_def.mp hb] at hspecial
    rcases hspecial with h | h <;> cases h
  · obtain ⟨hx, hy⟩ := not_or.mp hspecial
    cases x with
    | nan => exact absurd rfl hx
    | infinite s => exact absurd rfl hx
    | finite s m =>
      cases y with
      | nan => exact absurd rfl hy
      | infinite s' => exact absurd rfl hy
      | finite s' m' =>
        have hround := floorInt32?_round (s ^^ s')
          (mul_nonneg m.representable.nonneg m'.representable.nonneg) (z := z)
        rw [Binary.signed_xor_mul] at hround
        refine hround.trans ⟨fun h => ⟨_, rfl, _, rfl, h⟩, ?_⟩
        rintro ⟨a, ha, b, hb, h⟩
        obtain rfl := Option.some.inj ha
        obtain rfl := Option.some.inj hb
        exact h

/-- The exact quotient of a finite number and a number that is not zero. -/
def quotient? (x y : Binary32) : Option ℚ :=
  match y with
  | .nan => none
  | .infinite _ => x.value?.map fun _ => 0
  | .finite s m => x.value?.map fun a => a / signed s m.val

/-- A quotient that is a special value. -/
theorem ceilInt32?_div_special (hvalue : (x / y).value? = none) (hquotient : quotient? x y = none) :
    ceilInt32? (x / y) = some z ∧ CountsTo z ↔
      ∃ q ∈ quotient? x y, z = ⌈nearest q⌉ ∧ |q| < 2 ^ 31 - 64 := by
  have hceil : ceilInt32? (x / y) = none := by
    unfold ceilInt32? ceil?
    rw [hvalue]
    rfl
  rw [hceil, hquotient]
  exact iff_of_false (by simp) (by simp)

/-- A quotient that is zero, of whatever sign. -/
theorem ceilInt32?_div_zero (hvalue : (x / y).value? = some 0)
    (hquotient : quotient? x y = some 0) :
    ceilInt32? (x / y) = some z ∧ CountsTo z ↔
      ∃ q ∈ quotient? x y, z = ⌈nearest q⌉ ∧ |q| < 2 ^ 31 - 64 := by
  have hzero : nearest 0 = 0 := by simp [nearest, signed, Format.roundMag_zero]
  rw [ceilInt32?_eq_some_iff, hvalue, hquotient]
  constructor
  · rintro ⟨⟨q, hq, rfl, -⟩, -⟩
    obtain rfl := Option.some.inj hq
    exact ⟨0, rfl, by rw [hzero], by norm_num⟩
  · rintro ⟨q, hq, rfl, -⟩
    obtain rfl := Option.some.inj hq
    rw [hzero]
    exact ⟨⟨0, rfl, rfl, by decide⟩, by decide⟩

/-- **The ceiling of a quotient**, if a loop can count to it. -/
theorem ceilInt32?_div (hy : y.value? ≠ some 0) :
    ceilInt32? (x / y) = some z ∧ CountsTo z ↔
      ∃ q ∈ quotient? x y, z = ⌈nearest q⌉ ∧ |q| < 2 ^ 31 - 64 := by
  cases y with
  | nan => cases x <;> exact ceilInt32?_div_special rfl rfl
  | infinite s' =>
    cases x with
    | nan => exact ceilInt32?_div_special rfl rfl
    | infinite s => exact ceilInt32?_div_special rfl rfl
    | finite s m =>
      refine ceilInt32?_div_zero ?_ rfl
      show some (signed (s ^^ s') 0) = some 0
      cases s ^^ s' <;> simp [signed]
  | finite s' m' =>
    have hne : m'.val ≠ 0 := by
      intro hzero
      apply hy
      show some (signed s' m'.val) = some 0
      rw [hzero]
      cases s' <;> simp [signed]
    cases x with
    | nan => exact ceilInt32?_div_special rfl rfl
    | infinite s => exact ceilInt32?_div_special rfl rfl
    | finite s m =>
      -- two finite numbers: the exact quotient is rounded
      have hdiv : (Binary.finite s m / Binary.finite s' m' : Binary32) = Binary.round (s ^^ s')
          (m.val / m'.val) (div_nonneg m.representable.nonneg m'.representable.nonneg) :=
        if_neg hne
      rw [hdiv, ceilInt32?_round, Binary.signed_xor_div]
      constructor
      · intro h
        exact ⟨_, rfl, h⟩
      · rintro ⟨q, hq, h⟩
        obtain rfl := Option.some.inj hq
        exact h

/-- The reciprocal of a positive number, rounded; that of an infinite one is zero, and numbers that
are too small have none. -/
def inverse? : Binary32 → Option ℚ
  | .infinite false => some 0
  | .finite false m =>
    if 2 ^ (-128 : ℤ) < m.val then some (binary32.roundMag (1 / m.val)) else none
  | _ => none

theorem one_eq : ∃ m : Magnitude binary32, m.val = 1 ∧ (1 : Binary32) = .finite false m := by
  have hround : binary32.roundMag |1| = 1 := by
    rw [abs_one]
    exact Format.roundMag_zpow (f := binary32) (k := 0) (by decide)
  have hlt : binary32.roundMag |1| < 2 ^ binary32.maxExp := by
    rw [hround]
    exact one_lt_zpow₀ one_lt_two (by decide)
  refine ⟨⟨_, Format.representable_roundMag (abs_nonneg 1) hlt⟩, hround, ?_⟩
  show Binary.round (decide ((1 : ℚ) < 0)) |1| (abs_nonneg 1) = _
  unfold Binary.round
  rw [dif_pos hlt, decide_eq_false (by norm_num)]

/-- The reciprocal is not too large. -/
theorem roundMag_one_div_lt_iff {m : Magnitude binary32} (hpos : 0 < m.val) :
    binary32.roundMag (1 / m.val) < 2 ^ binary32.maxExp ↔ 2 ^ (-128 : ℤ) < m.val := by
  have hiff := Format.roundMag_lt_iff (f := binary32) (k := 128) (by decide) (q := 1 / m.val)
    (by positivity)
  have hexp : (128 : ℤ) - ((binary32.precision : ℕ) : ℤ) - 1 = 103 := rfl
  rw [hexp] at hiff
  refine hiff.trans ?_
  rw [div_lt_iff₀ hpos]
  obtain ⟨j, hj⟩ := m.representable.dvd
  have hmin : binary32.minExp = -149 := rfl
  rw [hmin] at hj
  constructor
  · intro hlt
    -- a number up to 2^-128 has a reciprocal from 2^128 on
    have hscale : (2 : ℚ) ^ (-128 : ℤ) * ((2 ^ (128 : ℤ) - 2 ^ (103 : ℤ)) * m.val) ≤ m.val := by
      rw [← mul_assoc]
      exact mul_le_of_le_one_left hpos.le (by norm_num)
    have hmul := mul_lt_mul_of_pos_left hlt (zpow_pos (two_pos (α := ℚ)) (-128))
    rw [mul_one] at hmul
    exact hmul.trans_le hscale
  · intro hlt
    -- the next larger multiple of the least place is large enough
    have hnext : 2 ^ 21 + 1 ≤ j := by
      rw [hj] at hlt
      have hcast : ((2 ^ 21 : ℕ) : ℚ) < j := by
        have hplace : (0 : ℚ) < 2 ^ (-149 : ℤ) := zpow_pos two_pos _
        refine lt_of_mul_lt_mul_right ?_ hplace.le
        refine lt_of_eq_of_lt ?_ hlt
        norm_num
      exact_mod_cast hcast
    have hcast : ((2 ^ 21 + 1 : ℕ) : ℚ) ≤ j := by exact_mod_cast hnext
    have hplace : (0 : ℚ) ≤ (2 ^ (128 : ℤ) - 2 ^ (103 : ℤ)) * 2 ^ (-149 : ℤ) := by norm_num
    calc (1 : ℚ) < ((2 ^ 21 + 1 : ℕ) : ℚ) * ((2 ^ (128 : ℤ) - 2 ^ (103 : ℤ)) * 2 ^ (-149 : ℤ)) := by
          norm_num
      _ ≤ j * ((2 ^ (128 : ℤ) - 2 ^ (103 : ℤ)) * 2 ^ (-149 : ℤ)) :=
          mul_le_mul_of_nonneg_right hcast hplace
      _ = (2 ^ (128 : ℤ) - 2 ^ (103 : ℤ)) * m.val := by
          rw [hj]
          ring

theorem value?_ne_zero (hpos : ¬ x ≤ 0) : x.value? ≠ some 0 := by
  intro hzero
  apply hpos
  cases x with
  | nan => cases hzero
  | infinite s => cases hzero
  | finite s m =>
    have hsigned : signed s m.val = 0 := Option.some.inj hzero
    exact ⟨_, rfl, _, rfl, WithBot.coe_le_coe.mpr (WithTop.coe_le_coe.mpr hsigned.le)⟩

/-- **The reciprocal** of a number that is not zero or less. -/
theorem value?_one_div (hpos : ¬ x ≤ 0) : (1 / x).value? = inverse? x := by
  obtain ⟨u, hu, hone⟩ := one_eq
  rw [hone]
  cases x with
  | nan => rfl
  | infinite s =>
    cases s with
    | true => exact absurd ⟨⊥, rfl, _, rfl, bot_le⟩ hpos
    | false => rfl
  | finite s m =>
    have hnonneg := m.representable.nonneg
    have hgt : ¬ signed s m.val ≤ 0 := fun hle =>
      hpos ⟨_, rfl, _, rfl, WithBot.coe_le_coe.mpr (WithTop.coe_le_coe.mpr hle)⟩
    cases s with
    -- a negative number, or zero, is not positive
    | true => exact absurd (neg_nonpos.mpr hnonneg) hgt
    | false =>
      have hm : 0 < m.val := not_le.mp hgt
      have hdiv : (Binary.finite false u / Binary.finite false m : Binary32)
          = Binary.round false (u.val / m.val) (div_nonneg u.representable.nonneg hnonneg) :=
        if_neg hm.ne'
      rw [hdiv, Binary.value?_round, hu]
      unfold inverse?
      simp only [roundMag_one_div_lt_iff hm]
      rfl

end Binary32

end MithAtomas
