import Mathlib

/-!
# Primes and squares by powers

Whether a number is prime, and whether it is a square modulo a prime, read off powers that the
kernel can compute: `powMod` halves the exponent at each step. And a square root as a power
(`ratio_root`).
-/

namespace LucasTest

/-- `a ^ n % m`, for an exponent of `bits` bits. -/
def powMod (m a : ℕ) : ℕ → ℕ → ℕ
  | 0, _ => 1 % m
  | bits + 1, n =>
    let r := powMod m a bits (n / 2)
    if n % 2 = 1 then r * r % m * a % m else r * r % m

theorem powMod_eq (m a : ℕ) {bits n : ℕ} (h : n < 2 ^ bits) : powMod m a bits n = a ^ n % m := by
  induction bits generalizing n with
  | zero =>
    obtain rfl : n = 0 := by simpa using h
    rfl
  | succ bits ih =>
    have hhalf : n / 2 < 2 ^ bits := by
      rw [pow_succ] at h
      omega
    have hsquare : a ^ (n / 2) % m * (a ^ (n / 2) % m) % m = a ^ (2 * (n / 2)) % m := by
      rw [← Nat.mul_mod, ← pow_add, two_mul]
    rw [powMod, ih hhalf, hsquare]
    have hn := Nat.div_add_mod n 2
    split
    · next hodd =>
      rw [hodd] at hn
      conv_rhs => rw [← hn, pow_succ]
      rw [Nat.mod_mul_mod]
    · next heven =>
      have hzero : n % 2 = 0 := by omega
      rw [hzero, Nat.add_zero] at hn
      rw [hn]

/-- A power that is one in the ring of remainders. -/
theorem powMod_eq_one_iff {m : ℕ} (hm : 1 < m) (a : ℕ) {bits n : ℕ} (h : n < 2 ^ bits) :
    powMod m a bits n = 1 ↔ (a : ZMod m) ^ n = 1 := by
  have hone : powMod m a bits n = 1 ↔ a ^ n % m = 1 % m := by
    rw [powMod_eq m a h, Nat.mod_eq_of_lt hm]
  rw [hone, ← ZMod.natCast_eq_natCast_iff', Nat.cast_pow, Nat.cast_one]

/-- Whether `a` has order `p - 1` modulo `p`, where the factors are those of `p - 1`. -/
def generates (bits p a : ℕ) (factors : List ℕ) : Bool :=
  1 < p && p < 2 ^ bits && factors.prod == p - 1 && powMod p a bits (p - 1) == 1 &&
    factors.all fun q => powMod p a bits ((p - 1) / q) != 1

/-- **Lucas's test**, by the factors of `p - 1`, each as often as it divides. -/
theorem prime_of_generates (bits p a : ℕ) (factors : List ℕ) (hprime : ∀ q ∈ factors, q.Prime)
    (h : generates bits p a factors = true) : p.Prime := by
  simp only [generates, Bool.and_eq_true, decide_eq_true_eq, beq_iff_eq, List.all_eq_true,
    bne_iff_ne] at h
  obtain ⟨⟨⟨⟨hp, hbits⟩, hprod⟩, hone⟩, hne⟩ := h
  have hlt : ∀ k, k ≤ p - 1 → k < 2 ^ bits := fun k hk => by omega
  refine lucas_primality p (a : ZMod p) ((powMod_eq_one_iff hp a (hlt _ le_rfl)).mp hone) ?_
  intro q hq hdvd hpow
  have hmem : q ∈ factors :=
    mem_list_primes_of_dvd_prod hq.prime (fun r hr => (hprime r hr).prime) (hprod.symm ▸ hdvd)
  exact hne q hmem ((powMod_eq_one_iff hp a (hlt _ (Nat.div_le_self _ _))).mpr hpow)

/-- **Euler's criterion**, where the power is not one. -/
theorem not_isSquare_of_powMod (bits p a : ℕ) [hp : Fact p.Prime] (hbits : p < 2 ^ bits)
    (ha : (a : ZMod p) ≠ 0) (h : powMod p a bits (p / 2) ≠ 1) : ¬ IsSquare (a : ZMod p) := by
  intro hsquare
  have hhalf : p / 2 < 2 ^ bits := lt_of_le_of_lt (Nat.div_le_self p 2) hbits
  exact h ((powMod_eq_one_iff hp.out.one_lt a hhalf).mpr ((ZMod.euler_criterion p ha).mp hsquare))

/-- **A root of a ratio** modulo a prime that is 5 modulo 8, up to a root of `-1`: if `u / v` is a
square at all, one power gives a number whose square is `u / v` or `-u / v`. -/
theorem ratio_root {p : ℕ} [Fact p.Prime] (hp : p % 8 = 5) {u v w : ZMod p} (hv : v ≠ 0)
    (hw : w ^ 2 * v = u) :
    (u * v ^ 3 * (u * v ^ 7) ^ ((p - 5) / 8)) ^ 2 * v = u ∨
      (u * v ^ 3 * (u * v ^ 7) ^ ((p - 5) / 8)) ^ 2 * v = -u := by
  obtain ⟨e, he⟩ : ∃ e, (p - 5) / 8 = e := ⟨_, rfl⟩
  have hhalf : p / 2 = 4 * e + 2 := by omega
  have hpower : (u * v ^ 3 * (u * v ^ 7) ^ e) ^ 2 * v = u * (w * v ^ 4) ^ (p / 2) := by
    rw [hhalf, ← hw]
    ring
  rw [he, hpower]
  by_cases h0 : w = 0
  · left
    rw [← hw, h0]
    ring
  · rcases ZMod.pow_div_two_eq_neg_one_or_one p (mul_ne_zero h0 (pow_ne_zero 4 hv)) with h | h
    · left
      rw [h, mul_one]
    · right
      rw [h, mul_neg_one]

end LucasTest
