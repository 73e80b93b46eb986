import MithAtomas.Framework.CheckedLoop
import MithAtomas.Framework.RadixNumber

/-!
# Field elements in sixteen limbs

`gf` of `third_party/tweetnacl/tweetnacl.c`: sixteen signed 64-bit limbs in base `2^16`, which stand
for a number modulo `2^255 - 19`. An operation whose result does not fit in 64 bits is undefined,
and so is the whole computation then (`i64`). Shifts are those of two's complement.

`car25519_spec` says what one pass of carries does to limbs of up to 62 bits: all of them are digits
afterwards, but for what the last carry puts on the lowest. `Within b` bounds the limbs, and the
specifications of `A`, `Z` and `M` say how large they may grow between two multiplications.
-/

namespace MithAtomas.TweetNacl

open CheckedLoop RadixNumber VectorLoop

-- Numerals take this instance, whichever others a larger build has.
scoped instance (priority := high) neZeroNumeral (k : ℕ) : NeZero (k + 1) := ⟨k.succ_ne_zero⟩

/-- `gf` -/
abbrev Gf := Vector ℤ 16

/-- The value of an expression of type `i64`. -/
def i64 (x : ℤ) : Option ℤ :=
  if -2 ^ 63 ≤ x ∧ x < 2 ^ 63 then some x else none

/-- `x >> n` -/
def sar (x : ℤ) (n : ℕ) : ℤ :=
  x >>> n

theorem sar_eq (x : ℤ) (n : ℕ) : sar x n = x / 2 ^ n := by
  rw [sar, Int.shiftRight_eq_div_pow]
  norm_cast

/-! ### The operations -/

/-- `(i+1)*(i<15)` -/
def carryIndex (i : Fin 16) : Fin 16 :=
  ⟨(i.val + 1) * (if i.val < 15 then 1 else 0), by split <;> omega⟩

/-- One round of `car25519`. -/
def car25519Round (i : Fin 16) (o : Gf) : Option Gf := do
  let x ← i64 (o.get i + 2 ^ 16)
  let o := setAt o i x
  let c := sar x 16
  let k := carryIndex i
  let y ← i64 (o.get k + (c - 1 + 37 * (c - 1) * (if i.val = 15 then 1 else 0)))
  let o := setAt o k y
  let z ← i64 (o.get i - c * 2 ^ 16)
  pure (setAt o i z)

/-- `car25519` -/
def car25519 (o : Gf) : Option Gf :=
  forUp 16 car25519Round o

/-- `sel25519` -/
def sel25519 (p q : Gf) (b : ℤ) : Gf × Gf :=
  let c := Int.lnot (b - 1)
  let t : Gf := Vector.ofFn fun i => Int.land c (Int.xor (p.get i) (q.get i))
  (Vector.ofFn fun i => Int.xor (p.get i) (t.get i),
    Vector.ofFn fun i => Int.xor (q.get i) (t.get i))

/-- `A` -/
def A (a b : Gf) : Option Gf :=
  forUp 16 (fun i o => (i64 (a.get i + b.get i)).map fun x => setAt o i x) a

/-- `Z` -/
def Z (a b : Gf) : Option Gf :=
  forUp 16 (fun i o => (i64 (a.get i - b.get i)).map fun x => setAt o i x) a

/-- `i+j` -/
def productIndex (i j : Fin 16) : Fin 31 :=
  ⟨i.val + j.val, by omega⟩

/-- `t[i+j]+=a[i]*b[j]` -/
def productRound (a b : Gf) (i j : Fin 16) (t : Vector ℤ 31) : Option (Vector ℤ 31) := do
  let k := productIndex i j
  let x ← i64 (a.get i * b.get j)
  let y ← i64 (t.get k + x)
  pure (setAt t k y)

def lowIndex (i : Fin 15) : Fin 31 :=
  ⟨i.val, by omega⟩

/-- `i+16` -/
def highIndex (i : Fin 15) : Fin 31 :=
  ⟨i.val + 16, by omega⟩

/-- `t[i]+=38*t[i+16]` -/
def foldRound (i : Fin 15) (t : Vector ℤ 31) : Option (Vector ℤ 31) := do
  let k := lowIndex i
  let x ← i64 (38 * t.get (highIndex i))
  let y ← i64 (t.get k + x)
  pure (setAt t k y)

/-- `M` -/
def M (a b : Gf) : Option Gf := do
  let t ← forUp 16 (fun i t => forUp 16 (fun j t => productRound a b i j t) t)
    (Vector.replicate 31 0)
  let t ← forUp 15 foldRound t
  let o : Gf := Vector.ofFn fun i => t.get ⟨i.val, by omega⟩
  let o ← car25519 o
  car25519 o

/-- `S` -/
def S (a : Gf) : Option Gf :=
  M a a

/-! ### The number that the limbs stand for -/

def num (a : Gf) : ℤ :=
  value (2 ^ 16) a.get

/-- The limbs are of this size at most. -/
def Within (b : ℤ) (a : Gf) : Prop :=
  ∀ i, |a.get i| ≤ b

theorem Within.mono {a : Gf} {b c : ℤ} (h : Within b a) (hbc : b ≤ c) : Within c a :=
  fun i => (h i).trans hbc

theorem ensures_i64 {x : ℤ} {P : ℤ → Prop} (hx : |x| < 2 ^ 63) (hP : P x) : Ensures (i64 x) P := by
  have hle := neg_abs_le x
  have hle' := le_abs_self x
  refine ⟨x, if_pos ⟨?_, ?_⟩, hP⟩
  · linarith
  · linarith

theorem get_set_eq_update {n : ℕ} (v : Vector ℤ n) (i : Fin n) (x : ℤ) :
    (setAt v i x).get = Function.update v.get i x := by
  funext j
  rw [get_setAt, Function.update_apply]

/-! ### Carries -/

theorem carryIndex_val (i : Fin 16) : (carryIndex i).val = if i.val < 15 then i.val + 1 else 0 := by
  unfold carryIndex
  split <;> simp_all

/-- The weight of a carry: what goes out at the top comes in again at the bottom, times 38. -/
def carryWeight (i : Fin 16) : ℤ :=
  if i.val = 15 then 38 else 1

/-- **One round** leaves a digit and carries the rest on. -/
theorem ensures_car25519Round {i : Fin 16} {o : Gf} (hi : |o.get i| ≤ 2 ^ 62 + 2 ^ 47)
    (hk : |o.get (carryIndex i)| ≤ 2 ^ 62) {P : Gf → Prop}
    (h : ∀ o' : Gf, o'.get = Function.update (Function.update o.get (carryIndex i)
        (o.get (carryIndex i) + carryWeight i * (o.get i / 2 ^ 16))) i (o.get i % 2 ^ 16) → P o') :
    Ensures (car25519Round i o) P := by
  have hne : carryIndex i ≠ i := by
    intro heq
    have hval := carryIndex_val i
    rw [heq] at hval
    split at hval <;> omega
  obtain ⟨hlow, hhigh⟩ := abs_le.mp hi
  obtain ⟨hlow', hhigh'⟩ := abs_le.mp hk
  -- the carry, which was raised so that the shift is of a number that is hardly ever negative
  have hcarry : sar (o.get i + 2 ^ 16) 16 - 1 = o.get i / 2 ^ 16 := by
    rw [sar_eq]
    omega
  have hweight : sar (o.get i + 2 ^ 16) 16 - 1 + 37 * (sar (o.get i + 2 ^ 16) 16 - 1) *
      (if i.val = 15 then 1 else 0) = carryWeight i * (o.get i / 2 ^ 16) := by
    rw [hcarry, carryWeight]
    split <;> ring
  have hweighted : |carryWeight i * (o.get i / 2 ^ 16)| ≤ 38 * (2 ^ 46 + 2 ^ 31 + 1) := by
    have hdiv : |o.get i / 2 ^ 16| ≤ 2 ^ 46 + 2 ^ 31 + 1 := by
      rw [abs_le]
      omega
    rw [abs_mul]
    unfold carryWeight
    split
    · exact mul_le_mul_of_nonneg_left hdiv (by norm_num)
    · rw [abs_one, one_mul]
      exact hdiv.trans (by norm_num)
  unfold car25519Round
  refine (ensures_i64 (P := fun x => x = o.get i + 2 ^ 16) ?_ rfl).bind ?_
  · rw [abs_lt]
    omega
  rintro x rfl
  simp only [get_setAt, if_neg hne, hweight]
  refine (ensures_i64
    (P := fun y => y = o.get (carryIndex i) + carryWeight i * (o.get i / 2 ^ 16)) ?_ rfl).bind ?_
  · refine lt_of_le_of_lt (abs_add_le _ _) ?_
    linarith
  rintro y rfl
  simp only [if_neg hne.symm, if_true]
  have hdigit : o.get i + 2 ^ 16 - sar (o.get i + 2 ^ 16) 16 * 2 ^ 16 = o.get i % 2 ^ 16 := by
    rw [show sar (o.get i + 2 ^ 16) 16 = o.get i / 2 ^ 16 + 1 by rw [← hcarry]; ring]
    have hmod := Int.emod_add_mul_ediv (o.get i) (2 ^ 16)
    linarith
  rw [hdigit]
  refine (ensures_i64 (P := fun z => z = o.get i % 2 ^ 16) ?_ rfl).bind ?_
  · rw [abs_of_nonneg (Int.emod_nonneg _ (by norm_num))]
    refine lt_of_lt_of_le (Int.emod_lt_of_pos _ (by norm_num)) (by norm_num)
  rintro z rfl
  refine ensures_pure.mpr (h _ ?_)
  rw [get_set_eq_update, get_set_eq_update, get_set_eq_update]
  rw [Function.update_comm hne, Function.update_idem, Function.update_comm hne.symm]

/-- What holds of the limbs before round `k` of a pass over limbs of size `b` that stand for `N`,
where `c` has been carried out at the top. -/
structure Carrying (N b : ℤ) (k : ℕ) (c : ℤ) (o : Gf) : Prop where
  num_eq : num o = N + 38 * c - 2 ^ 256 * c
  carried : k < 16 → c = 0
  digits : ∀ i : Fin 16, i.val < k → 0 ≤ o.get i - (if i.val = 0 then 38 * c else 0) ∧
    o.get i - (if i.val = 0 then 38 * c else 0) < 2 ^ 16
  here : ∀ i : Fin 16, i.val = k → |o.get i| ≤ b + 2 ^ 47
  rest : ∀ i : Fin 16, k < i.val → |o.get i| ≤ b

theorem Carrying.round {N b c : ℤ} {o : Gf} {i : Fin 16} (hb : b ≤ 2 ^ 62)
    (h : Carrying N b i c o) :
    Ensures (car25519Round i o) fun o' => ∃ c', Carrying N b (i + 1) c' o' := by
  obtain rfl := h.carried i.isLt
  have hi := h.here i rfl
  have hindex := carryIndex_val i
  have hdigits : ∀ j : Fin 16, j.val < i.val → 0 ≤ o.get j ∧ o.get j < 2 ^ 16 := by
    intro j hj
    have hj' := h.digits j hj
    simpa using hj'
  have hk : |o.get (carryIndex i)| ≤ 2 ^ 62 := by
    by_cases hlast : i.val < 15
    · rw [if_pos hlast] at hindex
      exact (h.rest _ (by omega)).trans hb
    · rw [if_neg hlast] at hindex
      obtain ⟨hlow, hhigh⟩ := hdigits (carryIndex i) (by omega)
      rw [abs_of_nonneg hlow]
      linarith
  refine ensures_car25519Round (by linarith) hk fun o' ho' => ?_
  have hne : carryIndex i ≠ i := by
    intro heq
    rw [heq] at hindex
    split at hindex <;> omega
  have hmod := Int.emod_add_mul_ediv (o.get i) (2 ^ 16)
  have hmod₀ := Int.emod_nonneg (o.get i) (show (2 : ℤ) ^ 16 ≠ 0 by norm_num)
  have hmod₁ := Int.emod_lt_of_pos (o.get i) (show (0 : ℤ) < 2 ^ 16 by norm_num)
  have hnum : num o' = num o + carryWeight i * (o.get i / 2 ^ 16) * (2 ^ 16) ^ (carryIndex i).val +
      (o.get i % 2 ^ 16 - o.get i) * (2 ^ 16) ^ i.val := by
    unfold num
    rw [ho', value_update, value_update, Function.update_of_ne hne.symm]
    ring
  have hself : o'.get i = o.get i % 2 ^ 16 := by
    rw [ho', Function.update_self]
  have hnext : o'.get (carryIndex i) =
    o.get (carryIndex i) + carryWeight i * (o.get i / 2 ^ 16) := by
    rw [ho', Function.update_of_ne hne, Function.update_self]
  have hother : ∀ j, j ≠ i → j ≠ carryIndex i → o'.get j = o.get j := by
    intro j hj hj'
    rw [ho', Function.update_of_ne hj, Function.update_of_ne hj']
  by_cases hlast : i.val < 15
  · -- the carry goes to the next limb
    rw [if_pos hlast] at hindex
    have hweight : carryWeight i = 1 := if_neg (by omega)
    rw [hweight, one_mul] at hnum hnext
    refine ⟨0, ?_, fun _ => rfl, fun j hj => ?_, fun j hj => ?_, fun j hj => ?_⟩
    · rw [hnum, h.num_eq, hindex, pow_succ]
      linear_combination (2 ^ 16) ^ i.val * hmod
    · rw [mul_zero, ite_self, sub_zero]
      by_cases hji : j = i
      · rw [hji, hself]
        exact ⟨hmod₀, hmod₁⟩
      · rw [hother j hji fun hj' => by rw [hj', hindex] at hj; omega]
        exact hdigits j (by omega)
    · obtain rfl : j = carryIndex i := Fin.ext (by omega)
      rw [hnext]
      have hrest := h.rest (carryIndex i) (by omega)
      have hdiv : |o.get i / 2 ^ 16| ≤ 2 ^ 47 := by
        rw [abs_le] at hi ⊢
        omega
      exact (abs_add_le _ _).trans (add_le_add hrest hdiv)
    · rw [hother j (by rintro rfl; omega) fun hj' => by rw [hj', hindex] at hj; omega]
      exact h.rest j (by omega)
  · -- the last carry comes in again at the bottom
    rw [if_neg hlast] at hindex
    have hi15 : i.val = 15 := by omega
    have hweight : carryWeight i = 38 := if_pos hi15
    rw [hweight] at hnum hnext
    refine ⟨o.get i / 2 ^ 16, ?_, fun hlt => by omega, fun j _ => ?_, fun j hj => by omega,
      fun j hj => by omega⟩
    · rw [hnum, h.num_eq, hindex, hi15]
      linear_combination (2 ^ 16) ^ 15 * hmod
    · by_cases hj0 : j.val = 0
      · obtain rfl : j = carryIndex i := Fin.ext (by omega)
        rw [if_pos hj0, hnext, add_sub_cancel_right]
        exact hdigits _ (by omega)
      · rw [if_neg hj0, sub_zero]
        by_cases hji : j = i
        · rw [hji, hself]
          exact ⟨hmod₀, hmod₁⟩
        · rw [hother j hji fun hj' => by rw [hj'] at hj0; omega]
          exact hdigits j (by omega)

/-- **A pass of carries** over limbs of up to 62 bits splits the number that they stand for: what is
below `2^256` is left as digits, and the rest comes in again, times 38, at the bottom. -/
theorem car25519_spec {o : Gf} {b : ℤ} (h : Within b o) (hb : b ≤ 2 ^ 62) :
    Ensures (car25519 o) fun o' => num o' = num o % 2 ^ 256 + 38 * (num o / 2 ^ 256) ∧
      ∀ i : Fin 16, o'.get i =
        digit (2 ^ 16) (num o % 2 ^ 256) i + if i.val = 0 then 38 * (num o / 2 ^ 256) else 0 := by
  refine (ensures_forUp (fun k o' => ∃ c, Carrying (num o) b k c o') ⟨0, ?_⟩ ?_).mono ?_
  · refine ⟨by ring, fun _ => rfl, fun i hi => absurd hi (Nat.not_lt_zero _), fun i _ => ?_,
      fun i _ => h i⟩
    linarith [h i]
  · rintro i o' ⟨c, hc⟩
    exact hc.round hb
  · rintro o' ⟨c, hc⟩
    -- the limbs without what came in again
    let d : Fin 16 → ℤ := fun i => o'.get i - if i.val = 0 then 38 * c else 0
    have hd : ∀ i, 0 ≤ d i ∧ d i < 2 ^ 16 := fun i => hc.digits i i.isLt
    have hvalue : value (2 ^ 16) d = num o' - 38 * c := by
      show value (2 ^ 16) (fun i => o'.get i - if i.val = 0 then 38 * c else 0) = _
      rw [value_sub, num]
      congr 1
      unfold value
      rw [Fin.sum_univ_succ]
      simp
    have hnonneg := value_nonneg (by norm_num : (0 : ℤ) ≤ 2 ^ 16) fun i => (hd i).1
    have hlt := value_lt (by norm_num : (0 : ℤ) < 2 ^ 16) hd
    have hnum := hc.num_eq
    have hc' : num o / 2 ^ 256 = c := by omega
    have hmod : num o % 2 ^ 256 = value (2 ^ 16) d := by omega
    rw [hc', hmod]
    refine ⟨by rw [hvalue]; ring, fun i => ?_⟩
    rw [digit_value (by norm_num) hd]
    exact (sub_add_cancel _ _).symm

/-! ### Arithmetic modulo `2^255 - 19` -/

def prime25519 : ℕ :=
  2 ^ 255 - 19

abbrev Fp := ZMod prime25519

/-- The element of the field that the limbs stand for. -/
def val (a : Gf) : Fp :=
  num a

theorem two_pow_256 : (2 ^ 256 : Fp) = 38 := by
  have h : ((2 ^ 256 : ℕ) : Fp) = ((2 * prime25519 + 38 : ℕ) : Fp) :=
    congrArg _ (by norm_num [prime25519])
  rw [Nat.cast_add, Nat.cast_mul, ZMod.natCast_self, mul_zero, zero_add] at h
  exact_mod_cast h

/-- What goes out at the top weighs 38. -/
theorem cast_fold (x y : ℤ) : ((x + 2 ^ 256 * y : ℤ) : Fp) = ((x + 38 * y : ℤ) : Fp) := by
  have h : ((2 ^ 256 : ℤ) : Fp) = ((38 : ℤ) : Fp) := by
    rw [Int.cast_pow, Int.cast_ofNat, Int.cast_ofNat, two_pow_256]
  rw [Int.cast_add, Int.cast_add, Int.cast_mul, Int.cast_mul, h]

theorem cast_split (x : ℤ) : ((x % 2 ^ 256 + 38 * (x / 2 ^ 256) : ℤ) : Fp) = (x : Fp) := by
  rw [← cast_fold, Int.emod_add_mul_ediv]

/-- **Two passes** bring limbs of up to 62 bits below 17, and the number hardly above `2^256`. -/
theorem car25519_twice {o : Gf} {b : ℤ} (h : Within b o) (hb : b ≤ 2 ^ 62) :
    Ensures (car25519 o >>= car25519) fun o' => Within (2 ^ 17) o' ∧
      (-38 ≤ num o' ∧ num o' < 2 ^ 256 + 38) ∧ val o' = val o := by
  have hsize := abs_value_mul_le (by norm_num : (1 : ℤ) ≤ 2 ^ 16) h
  have hnum : |num o| * (2 ^ 16 - 1) ≤ 2 ^ 62 * (2 ^ 256 - 1) := by
    refine hsize.trans ?_
    norm_num
    linarith
  have hc : |num o / 2 ^ 256| ≤ 2 ^ 47 := by
    rw [abs_le]
    rw [← abs_of_nonneg (by norm_num : (0 : ℤ) ≤ 2 ^ 16 - 1), ← abs_mul, abs_le] at hnum
    omega
  have hr := Int.emod_nonneg (num o) (by norm_num : (2 : ℤ) ^ 256 ≠ 0)
  have hr' := Int.emod_lt_of_pos (num o) (by norm_num : (0 : ℤ) < 2 ^ 256)
  refine (car25519_spec h hb).bind fun o₁ ho₁ => ?_
  have hwithin : Within (2 ^ 54) o₁ := by
    intro i
    rw [ho₁.2 i]
    have hdigit := digit_nonneg (by norm_num : (0 : ℤ) < 2 ^ 16) (num o % 2 ^ 256) i
    have hdigit' := digit_lt (by norm_num : (0 : ℤ) < 2 ^ 16) (num o % 2 ^ 256) i
    rw [abs_le] at hc ⊢
    split <;> omega
  -- the second carry is hardly anything
  have hc' : |num o₁ / 2 ^ 256| ≤ 1 := by
    rw [ho₁.1]
    rw [abs_le] at hc ⊢
    omega
  refine (car25519_spec hwithin (by norm_num)).mono fun o₂ ho₂ => ⟨fun i => ?_, ?_, ?_⟩
  · rw [ho₂.2 i]
    have hdigit := digit_nonneg (by norm_num : (0 : ℤ) < 2 ^ 16) (num o₁ % 2 ^ 256) i
    have hdigit' := digit_lt (by norm_num : (0 : ℤ) < 2 ^ 16) (num o₁ % 2 ^ 256) i
    rw [abs_le] at hc' ⊢
    split <;> omega
  · rw [ho₂.1]
    rw [abs_le] at hc'
    omega
  · rw [val, ho₂.1, cast_split, ho₁.1, cast_split, val]

theorem A_spec {a b : Gf} {s t : ℤ} (ha : Within s a) (hb : Within t b) (h : s + t < 2 ^ 63) :
    Ensures (A a b) fun o => Within (s + t) o ∧ val o = val a + val b := by
  have hle : ∀ i, |a.get i + b.get i| ≤ s + t := fun i =>
    (abs_add_le _ _).trans (add_le_add (ha i) (hb i))
  refine (ensures_fill (P := fun i x => x = a.get i + b.get i)
    (fun i => ensures_i64 (lt_of_le_of_lt (hle i) h) rfl) a).mono fun o ho => ⟨fun i => ?_, ?_⟩
  · rw [ho i]
    exact hle i
  · rw [val, num, funext ho, value_add, Int.cast_add]
    rfl

theorem Z_spec {a b : Gf} {s t : ℤ} (ha : Within s a) (hb : Within t b) (h : s + t < 2 ^ 63) :
    Ensures (Z a b) fun o => Within (s + t) o ∧ val o = val a - val b := by
  have hle : ∀ i, |a.get i - b.get i| ≤ s + t := fun i =>
    (abs_sub _ _).trans (add_le_add (ha i) (hb i))
  refine (ensures_fill (P := fun i x => x = a.get i - b.get i)
    (fun i => ensures_i64 (lt_of_le_of_lt (hle i) h) rfl) a).mono fun o ho => ⟨fun i => ?_, ?_⟩
  · rw [ho i]
    exact hle i
  · rw [val, num, funext ho, value_sub, Int.cast_sub]
    rfl

/-! ### Multiplication -/

/-- The size of the products that the loops may add up. -/
private theorem abs_product_le {a b : Gf} (ha : Within (2 ^ 26) a) (hb : Within (2 ^ 26) b)
    (i j : Fin 16) : |a.get i * b.get j| ≤ 2 ^ 52 := by
  rw [abs_mul]
  calc |a.get i| * |b.get j|
      ≤ 2 ^ 26 * 2 ^ 26 := mul_le_mul (ha i) (hb j) (abs_nonneg _) (by norm_num)
    _ = 2 ^ 52 := by norm_num

/-- What holds of the products before row `i`, column `j`. -/
structure Multiplying (a b : Gf) (i j : ℕ) (t : Vector ℤ 31) : Prop where
  value_eq : value (2 ^ 16) t.get = value (2 ^ 16) (truncate i a.get) * num b +
    (if h : i < 16 then a.get ⟨i, h⟩ * (2 ^ 16) ^ i * value (2 ^ 16) (truncate j b.get) else 0)
  size : ∀ k : Fin 31, |t.get k| ≤ (if k.val < i + j then i + 1 else i) * 2 ^ 52

/-- A whole row. -/
theorem Multiplying.next {a b : Gf} {i : Fin 16} {t : Vector ℤ 31} (h : Multiplying a b i 16 t) :
    Multiplying a b (i + 1) 0 t := by
  refine ⟨?_, fun k => ?_⟩
  · rw [h.value_eq, dif_pos i.isLt, value_truncate_succ, truncate_all, num]
    simp only [value_truncate_zero, mul_zero, dite_eq_ite, ite_self, add_zero]
    ring
  · have hk := h.size k
    push_cast at hk ⊢
    split at hk <;> split <;> linarith

theorem Multiplying.round {a b : Gf} (ha : Within (2 ^ 26) a) (hb : Within (2 ^ 26) b)
    {i j : Fin 16} {t : Vector ℤ 31} (h : Multiplying a b i j t) :
    Ensures (productRound a b i j t) (Multiplying a b i (j + 1)) := by
  have hproduct := abs_product_le ha hb i j
  have hi := i.isLt
  obtain ⟨k, hk'⟩ : ∃ k, productIndex i j = k := ⟨_, rfl⟩
  have hk : k.val = i.val + j.val := hk' ▸ rfl
  have hsize := h.size k
  rw [if_neg (by omega)] at hsize
  have hsum : |t.get k + a.get i * b.get j| ≤ (i + 1) * 2 ^ 52 := by
    refine (abs_add_le _ _).trans ?_
    linarith
  -- a place gets one product in each of the 16 rows
  have hrow : ((i : ℤ) + 1) * 2 ^ 52 ≤ 16 * 2 ^ 52 := by
    have : (i : ℤ) ≤ 15 := by omega
    linarith
  unfold productRound
  simp only [hk']
  refine (ensures_i64 (P := fun x => x = a.get i * b.get j) (by linarith) rfl).bind ?_
  rintro x rfl
  refine (ensures_i64 (P := fun y => y = t.get k + a.get i * b.get j) (by linarith) rfl).bind ?_
  rintro y rfl
  refine ensures_pure.mpr ⟨?_, fun l => ?_⟩
  · rw [get_set_eq_update, value_update, h.value_eq, dif_pos i.isLt, dif_pos i.isLt,
      value_truncate_succ, hk, pow_add]
    ring
  · rw [get_setAt]
    split
    · next heq =>
      rw [heq, if_pos (by omega)]
      exact hsum
    · next hne =>
      refine (h.size l).trans (mul_le_mul_of_nonneg_right ?_ (by norm_num))
      split <;> split <;> first | linarith | omega

/-- **The products**, before they are folded. -/
theorem products_spec {a b : Gf} (ha : Within (2 ^ 26) a) (hb : Within (2 ^ 26) b) :
    Ensures (forUp 16 (fun i t => forUp 16 (fun j t => productRound a b i j t) t)
      (Vector.replicate 31 0)) fun t =>
        value (2 ^ 16) t.get = num a * num b ∧ ∀ k, |t.get k| ≤ 17 * 2 ^ 52 := by
  have hzero : ∀ k, (Vector.replicate 31 (0 : ℤ)).get k = 0 := fun k => Vector.getElem_replicate _
  refine (ensures_forUp (Multiplying a b · 0) ⟨?_, fun k => ?_⟩ fun i t ht => ?_).mono
    fun t ht => ⟨?_, fun k => ?_⟩
  · rw [funext hzero, value_zero]
    simp
  · rw [hzero]
    simp
  · exact (ensures_forUp (Multiplying a b i) ht fun j t ht => ht.round ha hb).mono
      fun t ht => ht.next
  · rw [ht.value_eq, dif_neg (lt_irrefl _), truncate_all, add_zero]
    rfl
  · refine (ht.size k).trans ?_
    push_cast
    split <;> norm_num

/-- **The fold**: what is above `2^256` comes down, times 38. -/
theorem fold_spec {t : Vector ℤ 31} (ht : ∀ k, |t.get k| ≤ 17 * 2 ^ 52) :
    Ensures (forUp 15 foldRound t) fun u => ∀ k : Fin 31, u.get k =
      t.get k + if h : k.val < 15 then 38 * t.get ⟨k.val + 16, by omega⟩ else 0 := by
  refine (ensures_forUp (fun i (u : Vector ℤ 31) => ∀ k : Fin 31, u.get k = t.get k +
    if h : k.val < i ∧ k.val < 15 then 38 * t.get ⟨k.val + 16, by omega⟩ else 0) ?_ ?_).mono ?_
  · intro k
    simp
  · intro i u hu
    have hi := i.isLt
    -- neither of the two limbs has been written yet
    have hhigh : u.get (highIndex i) = t.get (highIndex i) := by
      rw [hu, dif_neg (by simp [highIndex]), add_zero]
    have hlow : u.get (lowIndex i) = t.get (lowIndex i) := by
      rw [hu, dif_neg (by simp [lowIndex]), add_zero]
    have hsize := ht (highIndex i)
    have hsize' := ht (lowIndex i)
    have hscaled : |38 * t.get (highIndex i)| ≤ 38 * (17 * 2 ^ 52) := by
      rw [abs_mul]
      exact mul_le_mul_of_nonneg_left hsize (by norm_num)
    unfold foldRound
    simp only [hhigh, hlow]
    refine (ensures_i64 (P := fun x => x = 38 * t.get (highIndex i)) (by linarith) rfl).bind ?_
    rintro x rfl
    refine (ensures_i64 (P := fun y => y = t.get (lowIndex i) + 38 * t.get (highIndex i))
      ?_ rfl).bind ?_
    · exact lt_of_le_of_lt (abs_add_le _ _) (by linarith)
    rintro y rfl
    refine ensures_pure.mpr fun k => ?_
    rw [get_setAt]
    split
    · next heq =>
      subst heq
      rw [dif_pos ⟨Nat.lt_succ_self _, hi⟩]
      rfl
    · next hne =>
      have hk : k.val ≠ i.val := fun h => hne (Fin.ext h)
      rw [hu]
      congr 1
      split <;> split <;> first | rfl | omega
  · intro u hu k
    rw [hu]
    congr 1
    split <;> split <;> first | rfl | omega

/-- The number of the folded limbs, where the others are left out. -/
theorem cast_folded (t : Vector ℤ 31) :
    ((value (2 ^ 16) (fun k : Fin 16 => t.get ⟨k.val, by omega⟩ +
      if h : k.val < 15 then 38 * t.get ⟨k.val + 16, by omega⟩ else 0) : ℤ) : Fp) =
        (value (2 ^ 16) t.get : ℤ) := by
  have hhigh : value (2 ^ 16) (fun k : Fin 16 =>
      if h : k.val < 15 then 38 * t.get ⟨k.val + 16, by omega⟩ else 0) =
        38 * value (2 ^ 16) (fun i : Fin 15 => t.get ⟨i.val + 16, by omega⟩) := by
    rw [← value_smul]
    unfold value
    rw [Fin.sum_univ_castSucc]
    simp
  have hsplit := value_split (n := 16) (m := 15) (B := 2 ^ 16) t.get
  have hlow : (fun i : Fin 16 => t.get (Fin.castAdd 15 i)) = fun k => t.get ⟨k.val, by omega⟩ := rfl
  have hhigh' : (fun i : Fin 15 => t.get (Fin.natAdd 16 i)) =
      fun k => t.get ⟨k.val + 16, by omega⟩ :=
    funext fun i => congrArg t.get (Fin.ext (Nat.add_comm _ _))
  rw [value_add, hhigh, hsplit, hlow, hhigh', ← cast_fold]
  norm_num

/-- **Multiplication.** -/
theorem M_spec {a b : Gf} (ha : Within (2 ^ 26) a) (hb : Within (2 ^ 26) b) :
    Ensures (M a b) fun o => Within (2 ^ 17) o ∧ val o = val a * val b := by
  unfold M
  refine (products_spec ha hb).bind fun t ht => ?_
  refine (fold_spec ht.2).bind fun u hu => ?_
  have hget : ∀ i : Fin 16, (Vector.ofFn fun i : Fin 16 => u.get ⟨i.val, by omega⟩).get i =
      t.get ⟨i.val, by omega⟩ +
        if h : i.val < 15 then 38 * t.get ⟨i.val + 16, by omega⟩ else 0 := by
    intro i
    rw [← hu]
    exact Vector.getElem_ofFn i.isLt
  have hwithin : Within (2 ^ 62) (Vector.ofFn fun i : Fin 16 => u.get ⟨i.val, by omega⟩) := by
    intro i
    have hlow := ht.2 ⟨i.val, by omega⟩
    rw [hget]
    refine (abs_add_le _ _).trans ?_
    split
    · have hhigh := ht.2 ⟨i.val + 16, by omega⟩
      rw [abs_mul]
      norm_num at hlow hhigh ⊢
      linarith
    · norm_num at hlow ⊢
      linarith
  refine (car25519_twice hwithin le_rfl).mono fun o ho => ⟨ho.1, ?_⟩
  rw [ho.2.2, val, num, funext hget, cast_folded, ht.1, Int.cast_mul]
  rfl

end MithAtomas.TweetNacl
