import Mathlib

/-!
# Binary floating point

Floating-point numbers of any binary format (`Format`), with the special values, and their
arithmetic: each operation on finite numbers is the exact one over `ℚ`, rounded to nearest, halves
to even, and infinite if the rounded result is too large.

Rounding works on magnitudes (`Format.roundMag`). `roundMag_lt_iff` and `roundMag_le_iff` say which
numbers are rounded below a power of two, and which to at most one; this is what a range check after
a rounded operation comes down to.
-/

namespace BinaryFloat

/-! ### To the nearest integer -/

/-- Halves go to the even neighbour. -/
def nearestEven (x : ℚ) : ℤ :=
  if Int.fract x < 1 / 2 then ⌊x⌋
  else if 1 / 2 < Int.fract x then ⌊x⌋ + 1
  else if Even ⌊x⌋ then ⌊x⌋
  else ⌊x⌋ + 1

variable {x : ℚ} {n : ℤ}

/-- The result is at most half away, and even if it is as much. -/
theorem nearestEven_spec (x : ℚ) :
    (nearestEven x - 1 / 2 < x ∨ x = nearestEven x - 1 / 2 ∧ Even (nearestEven x)) ∧
      (x < nearestEven x + 1 / 2 ∨ x = nearestEven x + 1 / 2 ∧ Even (nearestEven x)) := by
  have hx := Int.floor_add_fract x
  have h0 := Int.fract_nonneg x
  have h1 := Int.fract_lt_one x
  unfold nearestEven
  split
  · exact ⟨.inl (by linarith), .inl (by linarith)⟩
  · next hge =>
    split
    · push_cast
      exact ⟨.inl (by linarith), .inl (by linarith)⟩
    · next hle =>
      -- a half
      have hhalf : Int.fract x = 1 / 2 := le_antisymm (not_lt.mp hle) (not_lt.mp hge)
      split
      · next heven => exact ⟨.inl (by linarith), .inr ⟨by linarith, heven⟩⟩
      · next hodd =>
        have heven : Even (⌊x⌋ + 1) := Int.even_add_one.mpr hodd
        push_cast
        exact ⟨.inr ⟨by linarith, heven⟩, .inl (by linarith)⟩

theorem nearestEven_le_of_lt (h : x < n + 1 / 2) : nearestEven x ≤ n := by
  by_contra hlt
  have hsucc : (n : ℚ) + 1 ≤ nearestEven x := by exact_mod_cast not_le.mp hlt
  rcases (nearestEven_spec x).1 with hgt | ⟨heq, -⟩
  · linarith
  · linarith

theorem nearestEven_le_of_even (h : x ≤ n + 1 / 2) (heven : Even n) : nearestEven x ≤ n := by
  by_contra hlt
  have hsucc : (n : ℚ) + 1 ≤ nearestEven x := by exact_mod_cast not_le.mp hlt
  rcases (nearestEven_spec x).1 with hgt | ⟨heq, heven'⟩
  · linarith
  · -- then it is the successor, which is odd
    have hle : (nearestEven x : ℚ) ≤ n + 1 := by linarith
    have hone : nearestEven x = n + 1 := by exact_mod_cast le_antisymm hle hsucc
    rw [hone] at heven'
    exact Int.even_add_one.mp heven' heven

theorem le_nearestEven_of_lt (h : n - 1 / 2 < x) : n ≤ nearestEven x := by
  by_contra hlt
  have hsucc : (nearestEven x : ℚ) + 1 ≤ n := by exact_mod_cast not_le.mp hlt
  rcases (nearestEven_spec x).2 with hgt | ⟨heq, -⟩
  · linarith
  · linarith

theorem le_nearestEven_of_even (h : n - 1 / 2 ≤ x) (heven : Even n) : n ≤ nearestEven x := by
  by_contra hlt
  have hsucc : (nearestEven x : ℚ) + 1 ≤ n := by exact_mod_cast not_le.mp hlt
  rcases (nearestEven_spec x).2 with hgt | ⟨heq, heven'⟩
  · linarith
  · have hle : (n : ℚ) ≤ nearestEven x + 1 := by linarith
    have hone : n = nearestEven x + 1 := by exact_mod_cast le_antisymm hle hsucc
    rw [hone] at heven
    exact Int.even_add_one.mp heven heven'

theorem nearestEven_le (h : x ≤ n) : nearestEven x ≤ n :=
  nearestEven_le_of_lt (by linarith)

theorem le_nearestEven (h : n ≤ x) : n ≤ nearestEven x :=
  le_nearestEven_of_lt (by linarith)

/-! ### Rounding to a format -/

/-- Numbers of `precision` bits, multiples of `2 ^ minExp` and below `2 ^ maxExp`. -/
structure Format where
  precision : ℕ
  minExp : ℤ
  maxExp : ℤ
  one_lt : 1 < precision
  minExp_le : minExp + precision ≤ maxExp

namespace Format

variable (f : Format)

structure Representable (q : ℚ) : Prop where
  lt : q < 2 ^ f.maxExp
  scaled : ∃ (m : ℕ) (e : ℤ), m < 2 ^ f.precision ∧ f.minExp ≤ e ∧ q = m * 2 ^ e

/-- The exponent of the last place. -/
def ulpExp (q : ℚ) : ℤ :=
  max (Int.log 2 q - f.precision + 1) f.minExp

/-- To nearest, with no bound above. -/
def roundMag (q : ℚ) : ℚ :=
  nearestEven (q / 2 ^ f.ulpExp q) * 2 ^ f.ulpExp q

variable {f} {q : ℚ} {k : ℤ}

theorem roundMag_zero : f.roundMag 0 = 0 := by
  have hzero : nearestEven 0 = 0 := by
    unfold nearestEven
    simp
  unfold roundMag
  rw [zero_div, hzero, Int.cast_zero, zero_mul]

theorem roundMag_nonneg (h : 0 ≤ q) : 0 ≤ f.roundMag q := by
  have hulp : (0 : ℚ) < 2 ^ f.ulpExp q := zpow_pos two_pos _
  have hscaled : ((0 : ℤ) : ℚ) ≤ q / 2 ^ f.ulpExp q := by
    rw [Int.cast_zero]
    exact div_nonneg h hulp.le
  have hle := le_nearestEven hscaled
  exact mul_nonneg (by exact_mod_cast hle) hulp.le

/-- A power of two above the last place is a whole number of last places. -/
theorem zpow_eq_mul {e : ℤ} (h : e ≤ k) : (2 : ℚ) ^ k = ((2 ^ (k - e).toNat : ℤ) : ℚ) * 2 ^ e := by
  push_cast
  rw [← zpow_natCast, ← zpow_add₀ two_ne_zero, Int.toNat_of_nonneg (by omega), sub_add_cancel]

/-- **Rounding does not pass a power of two**, from below. -/
theorem roundMag_le_zpow (h0 : 0 ≤ q) (hk : f.minExp ≤ k) (h : q ≤ 2 ^ k) :
    f.roundMag q ≤ 2 ^ k := by
  rcases h0.eq_or_lt with rfl | hpos
  · rw [roundMag_zero]
    exact (zpow_pos two_pos k).le
  · have hlog : Int.log 2 q ≤ k := by
      have hmono := Int.log_mono_right (b := 2) hpos h
      have hself := Int.log_zpow (R := ℚ) one_lt_two k
      push_cast at hself
      rwa [hself] at hmono
    have hulp : f.ulpExp q ≤ k := by
      have hone := f.one_lt
      exact max_le (by omega) hk
    have hpow : (0 : ℚ) < 2 ^ f.ulpExp q := zpow_pos two_pos _
    -- the power of two is a whole number of places, which rounding to integers does not pass
    have hscaled : q / 2 ^ f.ulpExp q ≤ ((2 ^ (k - f.ulpExp q).toNat : ℤ) : ℚ) := by
      rw [div_le_iff₀ hpow, ← zpow_eq_mul hulp]
      exact h
    have hle := nearestEven_le hscaled
    calc f.roundMag q ≤ ((2 ^ (k - f.ulpExp q).toNat : ℤ) : ℚ) * 2 ^ f.ulpExp q :=
          mul_le_mul_of_nonneg_right (by exact_mod_cast hle) hpow.le
      _ = 2 ^ k := (zpow_eq_mul hulp).symm

/-- **Nor from above.** -/
theorem zpow_le_roundMag (hk : f.minExp ≤ k) (h : 2 ^ k ≤ q) : 2 ^ k ≤ f.roundMag q := by
  have hpos : 0 < q := (zpow_pos two_pos k).trans_le h
  have hlog : k ≤ Int.log 2 q := by
    have hiff := Int.zpow_le_iff_le_log (b := 2) one_lt_two (x := k) hpos
    push_cast at hiff
    exact hiff.mp h
  have hself : (2 : ℚ) ^ Int.log 2 q ≤ q := by
    have hself := Int.zpow_log_le_self (b := 2) one_lt_two hpos
    push_cast at hself
    exact hself
  have hulp : f.ulpExp q ≤ Int.log 2 q := by
    have hone := f.one_lt
    exact max_le (by omega) (hk.trans hlog)
  have hpow : (0 : ℚ) < 2 ^ f.ulpExp q := zpow_pos two_pos _
  -- the power may be less than a place, but the one at the start of the binade of `q` is not
  have hscaled : ((2 ^ (Int.log 2 q - f.ulpExp q).toNat : ℤ) : ℚ) ≤ q / 2 ^ f.ulpExp q := by
    rw [le_div_iff₀ hpow, ← zpow_eq_mul hulp]
    exact hself
  have hle := le_nearestEven hscaled
  calc (2 : ℚ) ^ k ≤ 2 ^ Int.log 2 q := zpow_le_zpow_right₀ one_le_two hlog
    _ = ((2 ^ (Int.log 2 q - f.ulpExp q).toNat : ℤ) : ℚ) * 2 ^ f.ulpExp q := zpow_eq_mul hulp
    _ ≤ f.roundMag q := mul_le_mul_of_nonneg_right (by exact_mod_cast hle) hpow.le

theorem roundMag_zpow (hk : f.minExp ≤ k) : f.roundMag (2 ^ k) = 2 ^ k :=
  le_antisymm (roundMag_le_zpow (zpow_pos two_pos k).le hk le_rfl) (zpow_le_roundMag hk le_rfl)

/-- In the binade below `2 ^ k`. -/
theorem ulpExp_eq (hk : f.minExp + f.precision ≤ k) (hlo : 2 ^ (k - 1) ≤ q) (hhi : q < 2 ^ k) :
    f.ulpExp q = k - f.precision := by
  have hpos : 0 < q := (zpow_pos two_pos _).trans_le hlo
  have hge : k - 1 ≤ Int.log 2 q := by
    have hiff := Int.zpow_le_iff_le_log (b := 2) one_lt_two (x := k - 1) hpos
    push_cast at hiff
    exact hiff.mp hlo
  have hlt : Int.log 2 q < k := by
    have hiff := Int.lt_zpow_iff_log_lt (b := 2) one_lt_two (x := k) hpos
    push_cast at hiff
    exact hiff.mp hhi
  unfold ulpExp
  omega

/-- Places of `2 ^ k` in the binade below it. -/
theorem zpow_eq_places (f : Format) (k : ℤ) :
    (2 : ℚ) ^ k = ((2 ^ f.precision : ℤ) : ℚ) * 2 ^ (k - f.precision) := by
  push_cast
  rw [← zpow_natCast, ← zpow_add₀ two_ne_zero, add_sub_cancel]

theorem zpow_half (j : ℤ) : (2 : ℚ) ^ (j - 1) = 2 ^ j / 2 := by
  rw [zpow_sub_one₀ two_ne_zero, div_eq_mul_inv]

theorem even_places {j : ℕ} (hj : j ≠ 0) : Even (2 ^ j : ℤ) :=
  even_two.pow_of_ne_zero hj

/-- **Below a power of two**, by more than half a place. -/
theorem roundMag_le_pred (hk : f.minExp + f.precision ≤ k) (h0 : 0 ≤ q)
    (h : q < 2 ^ k - 2 ^ (k - f.precision - 1)) :
    f.roundMag q ≤ 2 ^ k - 2 ^ (k - f.precision) := by
  have hone := f.one_lt
  have hplace : (0 : ℚ) < 2 ^ (k - f.precision) := zpow_pos two_pos _
  -- below the binade there is a whole place to spare; in it the place is known
  rcases lt_or_ge q (2 ^ (k - 1)) with hsmall | hlarge
  · have hle : (2 : ℚ) ^ (k - f.precision) ≤ 2 ^ (k - 1) :=
      zpow_le_zpow_right₀ one_le_two (by omega)
    have hround := roundMag_le_zpow (f := f) h0 (by omega) hsmall.le
    rw [zpow_half] at hle hround
    linarith
  · have hlt : q < 2 ^ k := h.trans (sub_lt_self _ (zpow_pos two_pos _))
    rw [roundMag, ulpExp_eq hk hlarge hlt]
    have hscaled : q / 2 ^ (k - f.precision : ℤ) < ((2 ^ f.precision - 1 : ℤ) : ℚ) + 1 / 2 := by
      rw [div_lt_iff₀ hplace]
      rw [zpow_half, zpow_eq_places f k] at h
      push_cast at h ⊢
      linarith
    have hle := nearestEven_le_of_lt hscaled
    calc (nearestEven (q / 2 ^ (k - f.precision : ℤ)) : ℚ) * 2 ^ (k - f.precision : ℤ)
        ≤ ((2 ^ f.precision - 1 : ℤ) : ℚ) * 2 ^ (k - f.precision : ℤ) :=
          mul_le_mul_of_nonneg_right (by exact_mod_cast hle) hplace.le
      _ = 2 ^ k - 2 ^ (k - f.precision : ℤ) := by
          rw [zpow_eq_places f k]
          push_cast
          ring

/-- Half a place below a power of two, or more. -/
theorem zpow_le_roundMag_of_half (hk : f.minExp + f.precision ≤ k)
    (h : 2 ^ k - 2 ^ (k - f.precision - 1) ≤ q) : 2 ^ k ≤ f.roundMag q := by
  have hone := f.one_lt
  rcases lt_or_ge q (2 ^ k) with hsmall | hlarge
  · have hplace : (0 : ℚ) < 2 ^ (k - f.precision) := zpow_pos two_pos _
    have hlow : (2 : ℚ) ^ (k - 1) ≤ q := by
      have hle : (2 : ℚ) ^ (k - f.precision - 1) ≤ 2 ^ (k - 1) :=
        zpow_le_zpow_right₀ one_le_two (by omega)
      rw [zpow_half k] at hle ⊢
      linarith
    rw [roundMag, ulpExp_eq hk hlow hsmall]
    have hscaled : ((2 ^ f.precision : ℤ) : ℚ) - 1 / 2 ≤ q / 2 ^ (k - f.precision : ℤ) := by
      rw [le_div_iff₀ hplace]
      rw [zpow_half, zpow_eq_places f k] at h
      linarith
    have hle := le_nearestEven_of_even hscaled (even_places (by omega))
    rw [zpow_eq_places f k]
    exact mul_le_mul_of_nonneg_right (by exact_mod_cast hle) hplace.le
  · exact zpow_le_roundMag (by omega) hlarge

/-- **Rounded below a power of two.** -/
theorem roundMag_lt_iff (hk : f.minExp + f.precision ≤ k) (h0 : 0 ≤ q) :
    f.roundMag q < 2 ^ k ↔ q < 2 ^ k - 2 ^ (k - f.precision - 1) := by
  constructor
  · intro hlt
    by_contra hge
    exact absurd (zpow_le_roundMag_of_half hk (not_lt.mp hge)) (not_le.mpr hlt)
  · intro hlt
    exact (roundMag_le_pred hk h0 hlt).trans_lt (sub_lt_self _ (zpow_pos two_pos _))

/-- In the binade above a power of two, where places are twice as large. A half is rounded down, as
the power of two is an even number of places. -/
theorem roundMag_le_iff_of_binade (hk : f.minExp + f.precision ≤ k) (hlo : 2 ^ k ≤ q)
    (hhi : q < 2 ^ (k + 1)) : f.roundMag q ≤ 2 ^ k ↔ q ≤ 2 ^ k + 2 ^ (k + 1 - f.precision) / 2 := by
  have hone := f.one_lt
  have hplace : (0 : ℚ) < 2 ^ (k + 1 - f.precision) := zpow_pos two_pos _
  have hplaces : (2 : ℚ) ^ k = ((2 ^ (f.precision - 1) : ℤ) : ℚ) * 2 ^ (k + 1 - f.precision) := by
    rw [zpow_eq_mul (e := k + 1 - f.precision) (by omega),
      show (k - (k + 1 - f.precision)).toNat = f.precision - 1 by omega]
  have hulp : f.ulpExp q = k + 1 - f.precision :=
    ulpExp_eq (by omega) (by rwa [add_sub_cancel_right]) hhi
  rw [roundMag, hulp]
  constructor
  · intro hle
    by_contra hlt
    -- beyond the half it is the next place, or more
    have hscaled : ((2 ^ (f.precision - 1) + 1 : ℤ) : ℚ) - 1 / 2
        < q / 2 ^ (k + 1 - f.precision : ℤ) := by
      rw [lt_div_iff₀ hplace]
      rw [hplaces] at hlt
      push_cast at hlt ⊢
      linarith
    have hge := le_nearestEven_of_lt hscaled
    have hmul := mul_le_mul_of_nonneg_right (Int.cast_le (R := ℚ).mpr hge) hplace.le
    rw [hplaces] at hle
    push_cast at hmul hle
    linarith
  · intro hle
    have hscaled : q / 2 ^ (k + 1 - f.precision : ℤ)
        ≤ ((2 ^ (f.precision - 1) : ℤ) : ℚ) + 1 / 2 := by
      rw [div_le_iff₀ hplace]
      rw [hplaces] at hle
      linarith
    have hround := nearestEven_le_of_even hscaled (even_places (by omega))
    rw [hplaces]
    exact mul_le_mul_of_nonneg_right (by exact_mod_cast hround) hplace.le

/-- **Rounded to a power of two at most.** -/
theorem roundMag_le_iff (hk : f.minExp + f.precision ≤ k) (h0 : 0 ≤ q) :
    f.roundMag q ≤ 2 ^ k ↔ q ≤ 2 ^ k + 2 ^ (k - f.precision) := by
  have hone := f.one_lt
  have hhalf : (2 : ℚ) ^ (k - f.precision) = 2 ^ (k + 1 - f.precision) / 2 := by
    rw [← zpow_half]
    congr 1
    ring
  rcases lt_or_ge q (2 ^ k) with hsmall | hlarge
  · have hpos : (0 : ℚ) < 2 ^ (k - f.precision) := zpow_pos two_pos _
    exact iff_of_true (roundMag_le_zpow h0 (by omega) hsmall.le) (by linarith)
  · rcases lt_or_ge q (2 ^ (k + 1)) with hbinade | hfar
    · rw [hhalf]
      exact roundMag_le_iff_of_binade hk hlarge hbinade
    · have hround := zpow_le_roundMag (f := f) (by omega) hfar
      have hlt : (2 : ℚ) ^ (k - f.precision) < 2 ^ k :=
        zpow_lt_zpow_right₀ one_lt_two (by omega)
      have hdouble : (2 : ℚ) ^ (k + 1) = 2 * 2 ^ k := by
        rw [zpow_add_one₀ two_ne_zero, mul_comm]
      have hpos : (0 : ℚ) < 2 ^ k := zpow_pos two_pos _
      exact iff_of_false (by linarith) (by linarith)

/-! ### The rounded number is in the format -/

/-- **Unless it is too large.** -/
theorem representable_roundMag (h0 : 0 ≤ q) (h : f.roundMag q < 2 ^ f.maxExp) :
    f.Representable (f.roundMag q) := by
  refine ⟨h, ?_⟩
  have hpow : (0 : ℚ) < 2 ^ f.ulpExp q := zpow_pos two_pos _
  have hnonneg : 0 ≤ nearestEven (q / 2 ^ f.ulpExp q) :=
    le_nearestEven (by rw [Int.cast_zero]; exact div_nonneg h0 hpow.le)
  have hle : nearestEven (q / 2 ^ f.ulpExp q) ≤ 2 ^ f.precision := by
    refine nearestEven_le ?_
    rw [div_le_iff₀ hpow]
    have hself := Int.lt_zpow_succ_log_self (b := 2) one_lt_two q
    push_cast at hself ⊢
    rw [← zpow_natCast, ← zpow_add₀ two_ne_zero]
    refine hself.le.trans (zpow_le_zpow_right₀ one_le_two ?_)
    have hmax := le_max_left (Int.log 2 q - f.precision + 1) f.minExp
    unfold ulpExp
    omega
  obtain ⟨m, hm⟩ := Int.eq_ofNat_of_zero_le hnonneg
  have hround : f.roundMag q = (m : ℚ) * 2 ^ f.ulpExp q := by
    rw [roundMag, hm, Int.cast_natCast]
  rw [hm] at hle
  rcases (show m ≤ 2 ^ f.precision by exact_mod_cast hle).lt_or_eq with hlt | rfl
  · exact ⟨m, f.ulpExp q, hlt, le_max_right _ _, hround⟩
  · -- a carry into the next binade
    have hmin : f.minExp ≤ f.ulpExp q := le_max_right _ _
    refine ⟨2 ^ (f.precision - 1), f.ulpExp q + 1, ?_, by omega, ?_⟩
    · exact Nat.pow_lt_pow_right one_lt_two (by have := f.one_lt; omega)
    · rw [hround, zpow_add_one₀ two_ne_zero]
      have hdouble : 2 ^ f.precision = 2 ^ (f.precision - 1) * 2 := by
        rw [← pow_succ, Nat.sub_add_cancel f.one_lt.le]
      rw [hdouble]
      push_cast
      ring

/-- Numbers of the format are apart by the least place. -/
theorem Representable.dvd (h : f.Representable q) : ∃ m : ℕ, q = m * 2 ^ f.minExp := by
  obtain ⟨m, e, -, he, rfl⟩ := h.scaled
  refine ⟨m * 2 ^ (e - f.minExp).toNat, ?_⟩
  rw [zpow_eq_mul he]
  push_cast
  ring

theorem representable_zero : f.Representable 0 :=
  ⟨zpow_pos two_pos _, 0, f.minExp, by positivity, le_rfl, by simp⟩

theorem Representable.nonneg (h : f.Representable q) : 0 ≤ q := by
  obtain ⟨m, e, -, -, rfl⟩ := h.scaled
  positivity

end Format

/-- The magnitude of a finite number. -/
structure Magnitude (f : Format) where
  val : ℚ
  representable : f.Representable val
  deriving DecidableEq

/-- Floating-point numbers. There is one `nan`. -/
inductive Binary (f : Format) where
  | nan
  | infinite (negative : Bool)
  | finite (negative : Bool) (magnitude : Magnitude f)
  deriving DecidableEq

/-- The number with this sign and magnitude. -/
def signed (negative : Bool) (q : ℚ) : ℚ :=
  if negative then -q else q

namespace Binary

variable {f : Format}

/-- The value of a finite number. -/
def value? : Binary f → Option ℚ
  | .finite negative m => some (signed negative m.val)
  | _ => none

/-- Rounded to nearest. -/
def round (negative : Bool) (q : ℚ) (h0 : 0 ≤ q) : Binary f :=
  if h : f.roundMag q < 2 ^ f.maxExp then
    .finite negative ⟨f.roundMag q, Format.representable_roundMag h0 h⟩
  else .infinite negative

theorem value?_round (negative : Bool) {q : ℚ} (h0 : 0 ≤ q) :
    (round negative q h0 : Binary f).value?
      = if f.roundMag q < 2 ^ f.maxExp then some (signed negative (f.roundMag q)) else none := by
  unfold round
  split <;> rfl

/-- A number, rounded; a zero is positive. -/
def ofRat (q : ℚ) : Binary f :=
  round (decide (q < 0)) |q| (abs_nonneg q)

instance : Zero (Binary f) :=
  ⟨.finite false ⟨0, Format.representable_zero⟩⟩

instance : One (Binary f) :=
  ⟨ofRat 1⟩

instance : NatCast (Binary f) :=
  ⟨fun n => ofRat n⟩

/-! ### Arithmetic -/

instance : Neg (Binary f) where
  neg
    | .nan => .nan
    | .infinite negative => .infinite !negative
    | .finite negative m => .finite (!negative) m

/-- `fabs` -/
def abs : Binary f → Binary f
  | .nan => .nan
  | .infinite _ => .infinite false
  | .finite _ m => .finite false m

/-- A sum that is zero has the sign of the summands if they agree, and is positive if not. -/
instance : Add (Binary f) where
  add
    | .finite s m, .finite s' m' =>
      let sum := signed s m.val + signed s' m'.val
      round (if sum = 0 then s && s' else decide (sum < 0)) |sum| (abs_nonneg sum)
    | .infinite s, .infinite s' => if s = s' then .infinite s else .nan
    | .infinite s, .finite _ _ => .infinite s
    | .finite _ _, .infinite s' => .infinite s'
    | _, _ => .nan

instance : Sub (Binary f) :=
  ⟨fun x y => x + -y⟩

instance : Mul (Binary f) where
  mul
    | .finite s m, .finite s' m' =>
      round (s ^^ s') (m.val * m'.val)
        (mul_nonneg m.representable.nonneg m'.representable.nonneg)
    | .infinite s, .infinite s' => .infinite (s ^^ s')
    | .infinite s, .finite s' m' => if m'.val = 0 then .nan else .infinite (s ^^ s')
    | .finite s m, .infinite s' => if m.val = 0 then .nan else .infinite (s ^^ s')
    | _, _ => .nan

instance : Div (Binary f) where
  div
    | .finite s m, .finite s' m' =>
      if m'.val = 0 then if m.val = 0 then .nan else .infinite (s ^^ s')
      else
        round (s ^^ s') (m.val / m'.val)
          (div_nonneg m.representable.nonneg m'.representable.nonneg)
    | .infinite s, .finite s' _ => .infinite (s ^^ s')
    | .finite s _, .infinite s' => .finite (s ^^ s') ⟨0, Format.representable_zero⟩
    | _, _ => .nan

theorem signed_xor_mul (s s' : Bool) (q q' : ℚ) :
    signed (s ^^ s') (q * q') = signed s q * signed s' q' := by
  cases s <;> cases s' <;> simp [signed]

theorem signed_xor_div (s s' : Bool) (q q' : ℚ) :
    signed (s ^^ s') (q / q') = signed s q / signed s' q' := by
  cases s <;> cases s' <;> simp [signed, neg_div, div_neg]

/-- A product with a special value is one. -/
theorem value?_mul_eq_none {x y : Binary f} (h : x.value? = none ∨ y.value? = none) :
    (x * y).value? = none := by
  cases x with
  | nan => rfl
  | infinite s =>
    cases y with
    | nan => rfl
    | infinite s' => rfl
    | finite s' m' =>
      show (if m'.val = 0 then nan else infinite (s ^^ s')).value? = none
      split <;> rfl
  | finite s m =>
    cases y with
    | nan => rfl
    | infinite s' =>
      show (if m.val = 0 then nan else infinite (s ^^ s')).value? = none
      split <;> rfl
    | finite s' m' => simp [value?] at h

/-! ### Comparison -/

/-- The place in the order; a `nan` has none. -/
def rank? : Binary f → Option (WithBot (WithTop ℚ))
  | .nan => none
  | .infinite true => some ⊥
  | .infinite false => some (some ⊤)
  | .finite negative m => some (some (some (signed negative m.val)))

instance : LT (Binary f) where
  lt x y := ∃ a ∈ x.rank?, ∃ b ∈ y.rank?, a < b

instance : LE (Binary f) where
  le x y := ∃ a ∈ x.rank?, ∃ b ∈ y.rank?, a ≤ b

theorem not_le_of_lt {x y : Binary f} (h : x < y) : ¬ y ≤ x := by
  obtain ⟨a, ha, b, hb, hlt⟩ := h
  rintro ⟨b', hb', a', ha', hle⟩
  obtain rfl := Option.mem_unique ha ha'
  obtain rfl := Option.mem_unique hb hb'
  exact absurd hle (not_le.mpr hlt)

instance : DecidableLT (Binary f) := fun x y =>
  inferInstanceAs (Decidable (∃ a ∈ x.rank?, ∃ b ∈ y.rank?, a < b))

instance : DecidableLE (Binary f) := fun x y =>
  inferInstanceAs (Decidable (∃ a ∈ x.rank?, ∃ b ∈ y.rank?, a ≤ b))

end Binary

end BinaryFloat
