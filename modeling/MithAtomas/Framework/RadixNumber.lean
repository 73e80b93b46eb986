import Mathlib

/-!
# Numbers by their limbs

The number that a family of limbs stands for in a base, where the limbs are any integers: they may
be negative, and larger than the base. What changing one limb does to the number
(`value_update`), how large it can be (`abs_value_mul_le`, `value_lt`), and that limbs between zero
and the base are the number's digits (`digit_value`, `value_digit`).
-/

namespace RadixNumber

variable {n : ℕ} {B : ℤ}

-- Numerals take this instance, whichever others a larger build has.
scoped instance (priority := high) neZeroNumeral (k : ℕ) : NeZero (k + 1) := ⟨k.succ_ne_zero⟩

/-- The number with the limbs `f`, the least first. -/
def value (B : ℤ) (f : Fin n → ℤ) : ℤ :=
  ∑ i, f i * B ^ (i : ℕ)

/-- Digit `i` of `x`. -/
def digit (B x : ℤ) (i : ℕ) : ℤ :=
  x / B ^ i % B

theorem value_succ (f : Fin (n + 1) → ℤ) :
    value B f = f 0 + B * value B (fun i => f i.succ) := by
  unfold value
  rw [Fin.sum_univ_succ, Finset.mul_sum]
  congr 1
  · simp
  · refine Finset.sum_congr rfl fun i _ => ?_
    rw [Fin.val_succ, pow_succ]
    ring

theorem value_update (f : Fin n → ℤ) (i : Fin n) (x : ℤ) :
    value B (Function.update f i x) = value B f + (x - f i) * B ^ (i : ℕ) := by
  unfold value
  rw [← Finset.add_sum_erase _ _ (Finset.mem_univ i),
    ← Finset.add_sum_erase (a := i) Finset.univ (fun i : Fin n => f i * B ^ (i : ℕ))
      (Finset.mem_univ i), Function.update_self]
  -- the other limbs are as they were
  have hothers : ∑ j ∈ Finset.univ.erase i, Function.update f i x j * B ^ (j : ℕ) =
      ∑ j ∈ Finset.univ.erase i, f j * B ^ (j : ℕ) := by
    refine Finset.sum_congr rfl fun j hj => ?_
    rw [Function.update_of_ne (Finset.ne_of_mem_erase hj)]
  rw [hothers]
  ring

theorem value_add (f g : Fin n → ℤ) : value B (fun i => f i + g i) = value B f + value B g := by
  unfold value
  rw [← Finset.sum_add_distrib]
  exact Finset.sum_congr rfl fun i _ => add_mul _ _ _

theorem value_sub (f g : Fin n → ℤ) : value B (fun i => f i - g i) = value B f - value B g := by
  unfold value
  rw [← Finset.sum_sub_distrib]
  exact Finset.sum_congr rfl fun i _ => sub_mul _ _ _

theorem value_zero : value B (fun _ : Fin n => 0) = 0 := by
  unfold value
  simp

theorem value_smul (c : ℤ) (f : Fin n → ℤ) : value B (fun i => c * f i) = c * value B f := by
  unfold value
  rw [Finset.mul_sum]
  exact Finset.sum_congr rfl fun i _ => mul_assoc _ _ _

/-- The low limbs, and the high ones. -/
theorem value_split {m : ℕ} (f : Fin (n + m) → ℤ) : value B f =
    value B (fun i : Fin n => f (Fin.castAdd m i)) +
      B ^ n * value B (fun i : Fin m => f (Fin.natAdd n i)) := by
  unfold value
  rw [Fin.sum_univ_add, Finset.mul_sum]
  congr 1
  refine Finset.sum_congr rfl fun i _ => ?_
  rw [Fin.val_natAdd, pow_add]
  ring

/-- The lowest `k` limbs, with zeros above them. -/
def truncate (k : ℕ) (f : Fin n → ℤ) (i : Fin n) : ℤ :=
  if i.val < k then f i else 0

@[simp] theorem value_truncate_zero (f : Fin n → ℤ) : value B (truncate 0 f) = 0 := by
  unfold truncate
  simpa using value_zero

theorem value_truncate_succ (f : Fin n → ℤ) (i : Fin n) :
    value B (truncate (i + 1) f) = value B (truncate i f) + f i * B ^ (i : ℕ) := by
  have hupdate : truncate (i + 1) f = Function.update (truncate i f) i (f i) := by
    funext j
    rw [Function.update_apply]
    unfold truncate
    split
    · next hj =>
      split
      · next heq => rw [heq]
      · next hne =>
        rw [if_pos (lt_of_le_of_ne (Nat.lt_succ_iff.mp hj) fun h => hne (Fin.ext h))]
    · next hj =>
      rw [if_neg (by rintro rfl; omega), if_neg (by omega)]
  rw [hupdate, value_update, truncate, if_neg (lt_irrefl _), sub_zero]

@[simp] theorem truncate_all (f : Fin n → ℤ) : truncate n f = f := by
  funext i
  exact if_pos i.isLt

theorem value_nonneg (hB : 0 ≤ B) {f : Fin n → ℤ} (hf : ∀ i, 0 ≤ f i) : 0 ≤ value B f :=
  Finset.sum_nonneg fun i _ => mul_nonneg (hf i) (pow_nonneg hB i)

/-- **Limbs of a size** bound the number. -/
theorem abs_value_mul_le (hB : 1 ≤ B) {f : Fin n → ℤ} {b : ℤ} (hf : ∀ i, |f i| ≤ b) :
    |value B f| * (B - 1) ≤ b * (B ^ n - 1) := by
  induction n with
  | zero => simp [value]
  | succ n ih =>
    have hlow := hf 0
    have hhigh := ih fun i => hf i.succ
    have habs : |value B f| ≤ |f 0| + B * |value B fun i => f i.succ| := by
      rw [value_succ]
      refine (abs_add_le _ _).trans ?_
      rw [abs_mul, abs_of_nonneg (by omega : 0 ≤ B)]
    calc |value B f| * (B - 1)
        ≤ (|f 0| + B * |value B fun i => f i.succ|) * (B - 1) :=
          mul_le_mul_of_nonneg_right habs (by omega)
      _ = |f 0| * (B - 1) + B * (|value B fun i => f i.succ| * (B - 1)) := by ring
      _ ≤ b * (B - 1) + B * (b * (B ^ n - 1)) :=
          add_le_add (mul_le_mul_of_nonneg_right hlow (by omega))
            (mul_le_mul_of_nonneg_left hhigh (by omega))
      _ = b * (B ^ (n + 1) - 1) := by ring

/-- Limbs below the base are a number below its power. -/
theorem value_lt (hB : 0 < B) {f : Fin n → ℤ} (hf : ∀ i, 0 ≤ f i ∧ f i < B) :
    value B f < B ^ n := by
  induction n with
  | zero => simp [value]
  | succ n ih =>
    have hlow := hf 0
    have hhigh := ih fun i => hf i.succ
    rw [value_succ]
    calc f 0 + B * value B (fun i => f i.succ)
        ≤ (B - 1) + B * (B ^ n - 1) :=
          add_le_add (by omega) (mul_le_mul_of_nonneg_left (by omega) hB.le)
      _ < B ^ (n + 1) := by
        rw [pow_succ]
        linarith

/-- **Limbs below the base** are the digits of the number. -/
theorem digit_value (hB : 0 < B) {f : Fin n → ℤ} (hf : ∀ i, 0 ≤ f i ∧ f i < B) (i : Fin n) :
    digit B (value B f) i = f i := by
  induction n with
  | zero => exact i.elim0
  | succ n ih =>
    have hlow := hf 0
    have hdiv : value B f / B = value B fun i => f i.succ := by
      rw [value_succ, Int.add_mul_ediv_left _ _ hB.ne', Int.ediv_eq_zero_of_lt hlow.1 hlow.2,
        zero_add]
    refine Fin.cases ?_ (fun i => ?_) i
    · rw [digit, Fin.val_zero, pow_zero, Int.ediv_one, value_succ, Int.add_mul_emod_self_left,
        Int.emod_eq_of_lt hlow.1 hlow.2]
    · have htail := ih (fun i => hf i.succ) i
      rw [← htail, ← hdiv, digit, digit, Fin.val_succ, pow_succ', Int.ediv_ediv_of_nonneg hB.le]

/-- **The digits** are the number's remainder. -/
theorem value_digit (hB : 0 < B) (x : ℤ) :
    value B (fun i : Fin n => digit B x i) = x % B ^ n := by
  induction n generalizing x with
  | zero => simp [value]
  | succ n ih =>
    have htail : ∀ i : Fin n, digit B x i.succ = digit B (x / B) i := by
      intro i
      rw [digit, digit, Fin.val_succ, pow_succ', Int.ediv_ediv_of_nonneg hB.le]
    rw [value_succ]
    simp only [htail]
    rw [ih (x / B), digit, Fin.val_zero, pow_zero, Int.ediv_one, pow_succ']
    -- the quotient by `B` has a remainder of its own
    have hpow : 0 < B ^ n := pow_pos hB n
    have hlow := Int.emod_nonneg x hB.ne'
    have hlow' := Int.emod_lt_of_pos x hB
    have hhigh := Int.emod_nonneg (x / B) hpow.ne'
    have hhigh' : x / B % B ^ n ≤ B ^ n - 1 := Int.le_sub_one_of_lt (Int.emod_lt_of_pos _ hpow)
    have hx : x = x % B + B * (x / B % B ^ n) + B * B ^ n * (x / B / B ^ n) := by
      linear_combination -(Int.emod_add_mul_ediv x B) - B * Int.emod_add_mul_ediv (x / B) (B ^ n)
    conv_rhs => rw [hx, Int.add_mul_emod_self_left]
    refine (Int.emod_eq_of_lt (add_nonneg hlow (mul_nonneg hB.le hhigh)) ?_).symm
    calc x % B + B * (x / B % B ^ n)
        < B + B * (B ^ n - 1) :=
          add_lt_add_of_lt_of_le hlow' (mul_le_mul_of_nonneg_left hhigh' hB.le)
      _ = B * B ^ n := by ring

theorem digit_nonneg (hB : 0 < B) (x : ℤ) (i : ℕ) : 0 ≤ digit B x i :=
  Int.emod_nonneg _ hB.ne'

theorem digit_lt (hB : 0 < B) (x : ℤ) (i : ℕ) : digit B x i < B :=
  Int.emod_lt_of_pos _ hB

/-- Two digits are one in the square of the base. -/
theorem digit_pair (hB : 0 < B) (x : ℤ) (i : ℕ) :
    digit B x (2 * i) + B * digit B x (2 * i + 1) = digit (B ^ 2) x i := by
  have hdiv : x / B ^ (2 * i + 1) = x / B ^ (2 * i) / B := by
    rw [pow_succ, Int.ediv_ediv_of_nonneg (pow_nonneg hB.le _)]
  have hpair := value_digit (n := 2) hB (x / B ^ (2 * i))
  unfold value digit at hpair
  rw [Fin.sum_univ_two] at hpair
  simp only [Fin.val_zero, Fin.val_one, pow_zero, pow_one, Int.ediv_one, mul_one] at hpair
  rw [digit, digit, digit, hdiv, ← pow_mul]
  linarith

end RadixNumber
