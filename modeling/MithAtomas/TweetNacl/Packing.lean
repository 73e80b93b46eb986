import MithAtomas.TweetNacl.Constants

/-!
# Field elements as bytes

`pack25519` and `unpack25519` of `third_party/tweetnacl/tweetnacl.c`, and the comparisons on top of
them. Limbs that stand for one element may differ; its 32 bytes are one and the same
(`pack25519_spec`), so that comparing the bytes compares the elements (`neq25519_spec`).

`pack25519` subtracts the prime twice and keeps each difference only if it is not negative, with no
branch: `sel25519_eq` says what the masks do.
-/

namespace MithAtomas.TweetNacl

open CheckedLoop RadixNumber VectorLoop

/-! ### Swapping by masks -/

theorem xor_xor_self (x y : ℤ) : Int.xor x (Int.xor x y) = y := by
  cases x <;> cases y <;> simp [Int.xor]

theorem xor_comm (x y : ℤ) : Int.xor x y = Int.xor y x := by
  cases x <;> cases y <;> simp [Int.xor, Nat.xor_comm]

theorem xor_zero (x : ℤ) : Int.xor x 0 = x := by
  cases x <;> simp [Int.xor]

private theorem ldiff_zero (n : ℕ) : Nat.ldiff n 0 = n :=
  Nat.eq_of_testBit_eq fun i => by rw [Nat.testBit_ldiff, Nat.zero_testBit]; simp

private theorem zero_ldiff (n : ℕ) : Nat.ldiff 0 n = 0 :=
  Nat.eq_of_testBit_eq fun i => by rw [Nat.testBit_ldiff, Nat.zero_testBit]; simp

theorem land_neg_one (x : ℤ) : Int.land (-1) x = x := by
  cases x with
  | ofNat n => exact congrArg Int.ofNat (ldiff_zero n)
  | negSucc n => exact congrArg Int.negSucc (Nat.zero_or n)

theorem zero_land (x : ℤ) : Int.land 0 x = 0 := by
  cases x with
  | ofNat n => exact congrArg Int.ofNat (Nat.zero_and n)
  | negSucc n => exact congrArg Int.ofNat (zero_ldiff n)

/-- **The masks** swap the two for one, and leave them for zero. -/
theorem sel25519_eq (p q : Gf) (b : Bool) :
    sel25519 p q (if b then 1 else 0) = if b then (q, p) else (p, q) := by
  have hget : ∀ (f : Fin 16 → ℤ) i, (Vector.ofFn f).get i = f i := fun f i =>
    Vector.getElem_ofFn i.isLt
  have hself : ∀ v : Gf, (Vector.ofFn fun i => v.get i) = v := fun v =>
    Vector.ext fun i hi => Vector.getElem_ofFn hi
  cases b with
  | false =>
    have hmask : Int.lnot (-1) = 0 := rfl
    simp [sel25519, hmask, hget, zero_land, xor_zero, hself]
  | true =>
    have hmask : Int.lnot 0 = -1 := rfl
    have hback : ∀ x y : ℤ, Int.xor x (Int.xor y x) = y := fun x y => by
      rw [xor_comm y x, xor_xor_self]
    simp [sel25519, hmask, hget, land_neg_one, xor_xor_self, hback, hself]

/-! ### Bytes -/

/-- `pack25519`, limb `i + 1` of the subtraction. -/
def subtractRound (t : Gf) (i : Fin 14) (m : Gf) : Option Gf := do
  let k : Fin 16 := i.castSucc.castSucc
  let l : Fin 16 := i.castSucc.succ
  let x ← i64 (t.get l - 0xffff)
  let y ← i64 (x - sar (m.get k) 16 % 2)
  let m := setAt m l y
  pure (setAt m k (m.get k % 2 ^ 16))

section Indices

local instance neZero_limbs : NeZero 16 := ⟨Nat.succ_ne_zero 15⟩

/-- `pack25519`, one of the two subtractions of the prime. What the masks leave in `m` is not read
before it is written again. -/
def subtractPrime (t m : Gf) : Option (Gf × Gf) := do
  let x ← i64 (t.get 0 - 0xffed)
  let m := setAt m 0 x
  let m ← forUp 14 (subtractRound t) m
  let x ← i64 (t.get 15 - 0x7fff)
  let y ← i64 (x - sar (m.get 14) 16 % 2)
  let m := setAt m 15 y
  let b := sar (m.get 15) 16 % 2
  let m := setAt m 14 (m.get 14 % 2 ^ 16)
  pure (sel25519 t m (1 - b))

/-- `unpack25519` -/
def unpack25519 (n : Vector UInt8 32) : Gf :=
  let o : Gf := Vector.ofFn fun i =>
    ((n.get ⟨2 * i.val, by omega⟩).toNat : ℤ) + (n.get ⟨2 * i.val + 1, by omega⟩).toNat * 2 ^ 8
  setAt o 15 (o.get 15 % 2 ^ 15)

end Indices

/-- `o[2*i]=t[i]&0xff; o[2*i+1]=t[i]>>8` -/
def limbBytes (x : ℤ) : Vector UInt8 2 :=
  #v[UInt8.ofInt (x % 2 ^ 8), UInt8.ofInt (sar x 8)]

/-- `pack25519` -/
def pack25519 (n : Gf) : Option (Vector UInt8 32) := do
  let t ← car25519 n
  let t ← car25519 t
  let t ← car25519 t
  let (t, m) ← subtractPrime t (Vector.replicate 16 0)
  let (t, _) ← subtractPrime t m
  pure (Vector.ofFn fun i : Fin 16 => limbBytes (t.get i)).flatten

/-- `vn`, where `u32` is `unsigned long`. -/
def vn {n : ℕ} (x y : Vector UInt8 n) : ℤ :=
  let d : UInt64 := (List.finRange n).foldl (fun d i => d ||| (x.get i ^^^ y.get i).toUInt64) 0
  ((((1 : UInt64) &&& ((d - 1) >>> 8)) - 1).toBitVec.setWidth 32).toInt

/-- `crypto_verify_32` -/
def cryptoVerify32 (x y : Vector UInt8 32) : ℤ :=
  vn x y

/-- `neq25519` -/
def neq25519 (a b : Gf) : Option ℤ := do
  let c ← pack25519 a
  let d ← pack25519 b
  pure (cryptoVerify32 c d)

/-- `par25519` -/
def par25519 (a : Gf) : Option UInt8 := do
  let d ← pack25519 a
  pure (d.get ⟨0, Nat.succ_pos 31⟩ &&& 1)

/-! ### Subtracting the prime -/

/-- The limbs of the prime. -/
def primeLimb (k : Fin 16) : ℤ :=
  if k.val = 0 then 0xffed else if k.val = 15 then 0x7fff else 0xffff

theorem value_primeLimb : value (2 ^ 16) primeLimb = prime25519 := by
  unfold value primeLimb prime25519
  simp only [Fin.sum_univ_succ, Fin.sum_univ_zero]
  norm_num

/-- The limbs are digits. -/
def Digits (t : Gf) : Prop :=
  ∀ k, 0 ≤ t.get k ∧ t.get k < 2 ^ 16

/-- What holds when limb `r` has been written and what it borrows has not been paid yet. -/
structure Subtracting (t : Gf) (r : ℕ) (m : Gf) : Prop where
  value_eq : value (2 ^ 16) (fun k => if k.val ≤ r then m.get k else t.get k - primeLimb k) =
    num t - prime25519
  digits : ∀ k : Fin 16, k.val < r → 0 ≤ m.get k ∧ m.get k < 2 ^ 16
  here : ∀ k : Fin 16, k.val = r → -2 ^ 16 ≤ m.get k ∧ m.get k < 2 ^ 16

/-- What limb `k` borrows from the next. -/
theorem borrow_eq {x : ℤ} (h : -2 ^ 16 ≤ x ∧ x < 2 ^ 16) :
    sar x 16 % 2 = if x < 0 then 1 else 0 := by
  rw [sar_eq]
  split <;> omega

/-- **The next limb** pays what the last one borrowed. -/
theorem Subtracting.next {t m m' : Gf} (ht : Digits t) {k l : Fin 16} (hkl : l.val = k.val + 1)
    (h : Subtracting t k m) (hm' : m'.get = Function.update
      (Function.update m.get l (t.get l - primeLimb l - sar (m.get k) 16 % 2)) k
        (m.get k % 2 ^ 16)) : Subtracting t l m' := by
  have hne : l ≠ k := fun heq => by rw [heq] at hkl; omega
  have hk := h.here k rfl
  have hborrow := borrow_eq hk
  have hdigit := ht l
  have hprime : 0 ≤ primeLimb l ∧ primeLimb l ≤ 0xffff := by
    unfold primeLimb
    split_ifs <;> norm_num
  have hself : m'.get k = m.get k % 2 ^ 16 := by
    rw [hm', Function.update_self]
  have hnext : m'.get l = t.get l - primeLimb l - sar (m.get k) 16 % 2 := by
    rw [hm', Function.update_of_ne hne, Function.update_self]
  have hother : ∀ j, j ≠ k → j ≠ l → m'.get j = m.get j := by
    intro j hj hj'
    rw [hm', Function.update_of_ne hj, Function.update_of_ne hj']
  refine ⟨?_, fun j hj => ?_, fun j hj => ?_⟩
  · -- two limbs of the difference change, and what one pays the other gets
    have hlimbs : (fun j : Fin 16 => if j.val ≤ l then m'.get j else t.get j - primeLimb j) =
        Function.update (Function.update
          (fun j : Fin 16 => if j.val ≤ k then m.get j else t.get j - primeLimb j) l
            (t.get l - primeLimb l - sar (m.get k) 16 % 2)) k (m.get k % 2 ^ 16) := by
      funext j
      by_cases hjk : j = k
      · rw [hjk, Function.update_self, if_pos (by omega), hself]
      · rw [Function.update_of_ne hjk]
        by_cases hjl : j = l
        · rw [hjl, Function.update_self, if_pos le_rfl, hnext]
        · rw [Function.update_of_ne hjl]
          have hjk' : j.val ≠ k.val := fun h => hjk (Fin.ext h)
          have hjl' : j.val ≠ l.val := fun h => hjl (Fin.ext h)
          by_cases hle : j.val ≤ k.val
          · rw [if_pos (by omega), if_pos hle, hother j hjk hjl]
          · rw [if_neg (by omega), if_neg hle]
    rw [hlimbs, value_update, value_update, h.value_eq, Function.update_of_ne hne.symm,
      if_pos le_rfl, if_neg (by omega), hkl, pow_succ, hborrow]
    have hmod : m.get k % 2 ^ 16 = m.get k + 2 ^ 16 * if m.get k < 0 then 1 else 0 := by
      split <;> omega
    rw [hmod]
    ring
  · by_cases hjk : j = k
    · rw [hjk, hself]
      exact ⟨Int.emod_nonneg _ (by norm_num), Int.emod_lt_of_pos _ (by norm_num)⟩
    · rw [hother j hjk fun heq => by rw [heq] at hj; omega]
      exact h.digits j (by have : j.val ≠ k.val := fun h => hjk (Fin.ext h); omega)
  · obtain rfl : j = l := Fin.ext hj
    rw [hnext, hborrow]
    split <;> omega

theorem Subtracting.round {t m : Gf} (ht : Digits t) {i : Fin 14} (h : Subtracting t i m) :
    Ensures (subtractRound t i m) (Subtracting t (i + 1)) := by
  obtain ⟨k, hk⟩ : ∃ k : Fin 16, i.castSucc.castSucc = k := ⟨_, rfl⟩
  obtain ⟨l, hl⟩ : ∃ l : Fin 16, i.castSucc.succ = l := ⟨_, rfl⟩
  have hk' : k.val = i.val := hk ▸ rfl
  have hl' : l.val = i.val + 1 := hl ▸ rfl
  have hne : k ≠ l := fun heq => by rw [heq] at hk'; omega
  have hlimb : primeLimb l = 0xffff := by
    unfold primeLimb
    rw [if_neg (by omega), if_neg (by omega)]
  have hdigit := ht l
  have hborrow := borrow_eq (h.here k hk')
  unfold subtractRound
  simp only [hk, hl]
  refine (ensures_i64 (P := fun x => x = t.get l - 0xffff) ?_ rfl).bind ?_
  · rw [abs_lt]
    omega
  rintro x rfl
  refine (ensures_i64 (P := fun y => y = t.get l - 0xffff - sar (m.get k) 16 % 2) ?_ rfl).bind ?_
  · rw [hborrow, abs_lt]
    split <;> omega
  rintro y rfl
  rw [← hl']
  refine ensures_pure.mpr (Subtracting.next (m := m) ht (k := k) (by omega) (hk' ▸ h) ?_)
  rw [get_set_eq_update, get_set_eq_update, Function.update_of_ne hne, hlimb]

section Indices

local instance neZero_limb : NeZero 16 := ⟨Nat.succ_ne_zero 15⟩

/-- **One subtraction** is kept only where the number is not below the prime. -/
theorem subtractPrime_spec {t : Gf} (ht : Digits t) (m : Gf) :
    Ensures (subtractPrime t m) fun r => Digits r.1 ∧
      num r.1 = if num t < prime25519 then num t else num t - prime25519 := by
  have ht₀ := ht 0
  have ht₁₅ := ht 15
  unfold subtractPrime
  refine (ensures_i64 (P := fun x => x = t.get 0 - 0xffed) ?_ rfl).bind ?_
  · rw [abs_lt]
    omega
  rintro x rfl
  refine (ensures_forUp (Subtracting t) ?_ fun i m hm => hm.round ht).bind fun m hm => ?_
  · refine ⟨?_, fun k hk => absurd hk (Nat.not_lt_zero _), fun k hk => ?_⟩
    · have hlimbs : (fun k : Fin 16 => if k.val ≤ 0 then
          (setAt m 0 (t.get 0 - 0xffed)).get k
            else t.get k - primeLimb k) = fun k => t.get k - primeLimb k := by
        funext k
        split
        · obtain rfl : k = 0 := Fin.ext (by simpa using ‹k.val ≤ 0›)
          rw [get_setAt, if_pos rfl]
          rfl
        · rfl
      rw [hlimbs, value_sub, value_primeLimb, num]
    · obtain rfl : k = 0 := Fin.ext hk
      rw [get_setAt, if_pos rfl]
      omega
  have hborrow := borrow_eq (hm.here 14 rfl)
  refine (ensures_i64 (P := fun x => x = t.get 15 - 0x7fff) ?_ rfl).bind ?_
  · rw [abs_lt]
    omega
  rintro x rfl
  refine (ensures_i64 (P := fun y => y = t.get 15 - 0x7fff - sar (m.get 14) 16 % 2)
    ?_ rfl).bind ?_
  · rw [hborrow, abs_lt]
    split <;> omega
  rintro y rfl
  -- the last limb is the sign
  obtain ⟨m₁, hm₁⟩ : ∃ m₁ : Gf, setAt m 15 (t.get 15 - 0x7fff - sar (m.get 14) 16 % 2) = m₁ :=
    ⟨_, rfl⟩
  obtain ⟨m₂, hm₂⟩ : ∃ m₂ : Gf, setAt m₁ 14 (m₁.get 14 % 2 ^ 16) =
      m₂ := ⟨_, rfl⟩
  have h14 : m₁.get 14 = m.get 14 := by
    rw [← hm₁, get_setAt, if_neg (by decide)]
  have h15 : m₁.get 15 = m₂.get 15 := by
    rw [← hm₂, get_setAt, if_neg (by decide)]
  have hsub : Subtracting t 15 m₂ := by
    refine Subtracting.next (m := m) ht (k := 14) (l := 15) rfl hm ?_
    rw [← hm₂, h14, get_set_eq_update, ← hm₁, get_set_eq_update]
    rfl
  have hvalue : num m₂ = num t - prime25519 := by
    rw [← hsub.value_eq, num]
    congr 1
    funext k
    rw [if_pos (by omega)]
  have hsign : num t < prime25519 ↔ m₂.get 15 < 0 := by
    have hsplit : num m₂ = value (2 ^ 16) (fun k : Fin 15 => m₂.get k.castSucc) +
        m₂.get 15 * (2 ^ 16) ^ 15 := by
      unfold num value
      rw [Fin.sum_univ_castSucc]
      rfl
    have hlow : ∀ k : Fin 15, 0 ≤ m₂.get k.castSucc ∧ m₂.get k.castSucc < 2 ^ 16 := fun k =>
      hsub.digits k.castSucc (by rw [Fin.val_castSucc]; exact k.isLt)
    have hnonneg := value_nonneg (by norm_num : (0 : ℤ) ≤ 2 ^ 16) fun k => (hlow k).1
    have hlt := value_lt (by norm_num : (0 : ℤ) < 2 ^ 16) hlow
    rw [show num t = num m₂ + prime25519 by omega, hsplit]
    constructor
    · intro h
      by_contra hge
      have := mul_nonneg (not_lt.mp hge) (by positivity : (0 : ℤ) ≤ (2 ^ 16) ^ 15)
      omega
    · intro h
      have := mul_le_mul_of_nonneg_right (Int.le_sub_one_of_lt h)
        (by positivity : (0 : ℤ) ≤ (2 ^ 16) ^ 15)
      norm_num at this hlt ⊢
      omega
  have hb : sar (m₁.get 15) 16 % 2 = if m₂.get 15 < 0 then 1 else 0 := by
    rw [h15]
    exact borrow_eq (hsub.here 15 rfl)
  simp only [hm₁, hm₂]
  rw [hb]
  by_cases hlt : m₂.get 15 < 0
  · have hselect := sel25519_eq t m₂ false
    simp only [Bool.false_eq_true, if_false] at hselect
    rw [if_pos hlt, sub_self, hselect, if_pos (hsign.mpr hlt)]
    exact ensures_pure.mpr ⟨ht, rfl⟩
  · have hselect := sel25519_eq t m₂ true
    simp only [if_true] at hselect
    rw [if_neg hlt, sub_zero, hselect, if_neg (mt hsign.mp hlt)]
    refine ensures_pure.mpr ⟨fun k => ?_, hvalue⟩
    by_cases hk : k.val = 15
    · obtain rfl : k = 15 := Fin.ext hk
      exact ⟨not_lt.mp hlt, (hsub.here 15 rfl).2⟩
    · exact hsub.digits k (by omega)

end Indices

/-! ### Bytes and numbers -/

/-- The bytes of an element, the least first. -/
def encode (x : Fp) : Vector UInt8 32 :=
  Vector.ofFn fun i => UInt8.ofNat (x.val / 256 ^ i.val)

/-- The number with the given bytes, the least first. -/
def leValue {n : ℕ} (v : Vector UInt8 n) : ℤ :=
  value 256 fun i => ((v.get i).toNat : ℤ)

theorem byte_bounds (b : UInt8) : 0 ≤ (b.toNat : ℤ) ∧ (b.toNat : ℤ) < 256 := by
  have h := b.toNat_lt
  omega

theorem toNat_ofInt (x : ℤ) : ((UInt8.ofInt x).toNat : ℤ) = x % 256 := by
  rw [UInt8.ofInt, UInt8.toNat_ofNat']
  omega

/-- Bytes are as many as the digits of the number in base 256. -/
theorem toNat_get_eq_digit {n : ℕ} (v : Vector UInt8 n) (i : Fin n) :
    ((v.get i).toNat : ℤ) = digit 256 (leValue v) i :=
  (digit_value (by norm_num) (fun i => byte_bounds (v.get i)) i).symm

theorem leValue_nonneg {n : ℕ} (v : Vector UInt8 n) : 0 ≤ leValue v :=
  value_nonneg (by norm_num) fun i => (byte_bounds (v.get i)).1

theorem leValue_lt {n : ℕ} (v : Vector UInt8 n) : leValue v < 256 ^ n :=
  value_lt (by norm_num) fun i => byte_bounds (v.get i)

/-- Bytes that stand for one number are the same. -/
theorem leValue_injective {n : ℕ} : Function.Injective (leValue (n := n)) := by
  intro v w h
  refine Vector.ext fun i hi => ?_
  apply UInt8.toNat_inj.mp
  have hv := toNat_get_eq_digit v ⟨i, hi⟩
  have hw := toNat_get_eq_digit w ⟨i, hi⟩
  rw [h, ← hw] at hv
  exact_mod_cast hv

theorem prime25519_eq : (prime25519 : ℤ) = 2 ^ 255 - 19 := by
  norm_num [prime25519]

instance : NeZero prime25519 := ⟨by norm_num [prime25519]⟩

theorem leValue_encode (x : Fp) : leValue (encode x) = x.val := by
  have hlt : (x.val : ℤ) < 2 ^ 255 - 19 := by
    rw [← prime25519_eq]
    exact_mod_cast ZMod.val_lt x
  have hbytes : ∀ i : Fin 32, (((encode x).get i).toNat : ℤ) = digit 256 x.val i := by
    intro i
    have hget : (encode x).get i = UInt8.ofNat (x.val / 256 ^ i.val) := Vector.getElem_ofFn i.isLt
    rw [hget, UInt8.toNat_ofNat', digit]
    push_cast
    rfl
  unfold leValue
  rw [funext hbytes, value_digit (by norm_num), Int.emod_eq_of_lt (by positivity)]
  exact lt_trans hlt (by norm_num)

/-- **The bytes** determine the element. -/
theorem encode_injective : Function.Injective encode := by
  intro x y h
  have hval : (x.val : ℤ) = y.val := by
    rw [← leValue_encode, ← leValue_encode, h]
  exact ZMod.val_injective _ (by exact_mod_cast hval)

/-! ### Packing -/

/-- **The third pass** leaves digits: what it carries out at the top and brings in again at the
bottom finds room there. -/
theorem car25519_digits {t : Gf} (h : Within (2 ^ 17) t)
    (hnum : -38 ≤ num t ∧ num t < 2 ^ 256 + 38) :
    Ensures (car25519 t) fun t' => Digits t' ∧ val t' = val t := by
  refine (car25519_spec h (by norm_num)).mono fun t' ht' => ⟨fun i => ?_, ?_⟩
  · rw [ht'.2 i]
    split
    · next hi =>
      rw [hi, digit, pow_zero, Int.ediv_one]
      omega
    · rw [add_zero]
      exact ⟨digit_nonneg (by norm_num) _ _, digit_lt (by norm_num) _ _⟩
  · rw [val, ht'.1, cast_split, val]

/-- The digits of a number, two bytes each. -/
theorem flatten_digits {t : Gf} (ht : Digits t) {x : Fp} (hx : num t = x.val) :
    (Vector.ofFn fun i : Fin 16 => limbBytes (t.get i)).flatten = encode x := by
  apply leValue_injective
  rw [leValue_encode, ← hx]
  -- both numbers by their digits in base 256
  have hbyte : ∀ k : Fin 32, ((((Vector.ofFn fun i : Fin 16 =>
      limbBytes (t.get i)).flatten.get k).toNat : ℤ)) = digit 256 (num t) k := by
    intro k
    obtain ⟨i, hi⟩ : ∃ i : Fin 16, i.val = k.val / 2 := ⟨⟨k.val / 2, by omega⟩, rfl⟩
    have hodd : k.val % 2 < 2 := Nat.mod_lt _ (Nat.succ_pos 1)
    have hget : (Vector.ofFn fun i : Fin 16 => limbBytes (t.get i)).flatten.get k =
        (limbBytes (t.get i))[k.val % 2] := by
      show (Vector.ofFn fun i : Fin 16 => limbBytes (t.get i)).flatten[k.val] = _
      rw [Vector.getElem_flatten, Vector.getElem_ofFn]
      simp only [← hi]
    have hlimb : digit 256 (num t) (2 * i) + 256 * digit 256 (num t) (2 * i + 1) = t.get i := by
      rw [digit_pair (by norm_num)]
      exact digit_value (by norm_num) ht i
    have hlow := digit_nonneg (by norm_num : (0 : ℤ) < 256) (num t) (2 * i)
    have hlow' := digit_lt (by norm_num : (0 : ℤ) < 256) (num t) (2 * i)
    have hhigh := digit_nonneg (by norm_num : (0 : ℤ) < 256) (num t) (2 * i + 1)
    have hhigh' := digit_lt (by norm_num : (0 : ℤ) < 256) (num t) (2 * i + 1)
    rw [hget]
    rcases Nat.mod_two_eq_zero_or_one k.val with hk | hk
    · have hki : k.val = 2 * i := by omega
      simp only [hk]
      show ((UInt8.ofInt (t.get i % 2 ^ 8)).toNat : ℤ) = _
      rw [toNat_ofInt, hki]
      omega
    · have hki : k.val = 2 * i + 1 := by omega
      simp only [hk]
      show ((UInt8.ofInt (sar (t.get i) 8)).toNat : ℤ) = _
      rw [toNat_ofInt, sar_eq, hki]
      omega
  have hnonneg : 0 ≤ num t := value_nonneg (by norm_num) fun i => (ht i).1
  have hlt : num t < (2 ^ 16) ^ 16 := value_lt (by norm_num) ht
  unfold leValue
  rw [funext hbyte, value_digit (by norm_num), Int.emod_eq_of_lt hnonneg]
  exact lt_of_lt_of_le hlt (by norm_num)

/-- **Packing** gives the bytes of the element, whatever limbs stand for it. -/
theorem pack25519_spec {n : Gf} {b : ℤ} (h : Within b n) (hb : b ≤ 2 ^ 62) :
    pack25519 n = some (encode (val n)) := by
  apply Ensures.eq_some
  have hp := prime25519_eq
  unfold pack25519
  rw [← bind_assoc]
  refine (car25519_twice h hb).bind fun t₂ ht₂ => ?_
  refine (car25519_digits ht₂.1 ht₂.2.1).bind fun t₃ ht₃ => ?_
  refine (subtractPrime_spec ht₃.1 _).bind fun r hr => ?_
  refine (subtractPrime_spec hr.1 _).bind fun r' hr' => ?_
  -- below `2^256` the prime goes in twice at most
  have hnonneg : 0 ≤ num t₃ := value_nonneg (by norm_num) fun i => (ht₃.1 i).1
  have hlt : num t₃ < (2 ^ 16) ^ 16 := value_lt (by norm_num) ht₃.1
  have hcast : ∀ x : ℤ, ((x - prime25519 : ℤ) : Fp) = x := fun x => by
    rw [Int.cast_sub, Int.cast_natCast, ZMod.natCast_self, sub_zero]
  have hval : ((num r'.1 : ℤ) : Fp) = val n := by
    rw [hr'.2, hr.2, ← ht₂.2.2, ← ht₃.2, val]
    split_ifs <;> simp only [hcast]
  have hbounds : 0 ≤ num r'.1 ∧ num r'.1 < prime25519 := by
    rw [hr'.2, hr.2]
    norm_num at hlt
    split_ifs <;> omega
  refine ensures_pure.mpr (flatten_digits hr'.1 ?_)
  rw [← hval, ZMod.val_intCast, Int.emod_eq_of_lt hbounds.1 hbounds.2]

/-- **Unpacking** reads the low 255 bits. -/
theorem unpack25519_spec (n : Vector UInt8 32) :
    Within (2 ^ 16) (unpack25519 n) ∧ num (unpack25519 n) = leValue n % 2 ^ 255 := by
  have hnonneg := leValue_nonneg n
  have hlt := leValue_lt n
  let f : Fin 16 → ℤ := fun i =>
    ((n.get ⟨2 * i.val, by omega⟩).toNat : ℤ) + (n.get ⟨2 * i.val + 1, by omega⟩).toNat * 2 ^ 8
  have hf : ∀ i : Fin 16, f i = digit (2 ^ 16) (leValue n) i := by
    intro i
    have hpair := digit_pair (by norm_num : (0 : ℤ) < 256) (leValue n) i
    show ((n.get ⟨2 * i.val, by omega⟩).toNat : ℤ) +
      (n.get ⟨2 * i.val + 1, by omega⟩).toNat * 2 ^ 8 = _
    rw [toNat_get_eq_digit, toNat_get_eq_digit, show (2 : ℤ) ^ 16 = 256 ^ 2 by norm_num, ← hpair]
    ring
  have hdigits : ∀ i, 0 ≤ f i ∧ f i < 2 ^ 16 := fun i => by
    rw [hf]
    exact ⟨digit_nonneg (by norm_num) _ _, digit_lt (by norm_num) _ _⟩
  -- the top bit is in the last limb
  have hlast : ∀ i : Fin 16, i.val = 15 → f i = leValue n / 2 ^ 240 := by
    intro i hi
    rw [hf, digit, hi, Int.emod_eq_of_lt (Int.ediv_nonneg hnonneg (by norm_num))]
    · norm_num
    · norm_num at hlt ⊢
      omega
  have hget : (unpack25519 n).get = Function.update f ⟨15, Nat.lt_succ_self 15⟩
      (f ⟨15, Nat.lt_succ_self 15⟩ % 2 ^ 15) := by
    have hofFn : (Vector.ofFn f).get = f := funext fun i => Vector.getElem_ofFn i.isLt
    unfold unpack25519
    rw [get_set_eq_update, hofFn]
    rfl
  refine ⟨fun i => ?_, ?_⟩
  · rw [hget, Function.update_apply, abs_le]
    have hi := hdigits i
    split <;> omega
  · have hvalue : value (2 ^ 16) f = leValue n := by
      rw [funext hf, value_digit (by norm_num), Int.emod_eq_of_lt hnonneg]
      exact lt_of_lt_of_le hlt (by norm_num)
    rw [num, hget, value_update, hvalue, hlast _ rfl]
    norm_num at hlt ⊢
    omega

/-- An element that is packed and unpacked. -/
theorem val_unpack25519_encode (x : Fp) : val (unpack25519 (encode x)) = x := by
  have hlt : (x.val : ℤ) < 2 ^ 255 - 19 := by
    rw [← prime25519_eq]
    exact_mod_cast ZMod.val_lt x
  rw [val, (unpack25519_spec _).2, leValue_encode, Int.emod_eq_of_lt (by positivity)]
  · rw [Int.cast_natCast, ZMod.natCast_zmod_val]
  · exact lt_trans hlt (by norm_num)

/-! ### Comparing -/

/-- The bits in which the bytes differ, one over the other: a byte, which is zero where no bytes
differ. -/
private theorem differences {n : ℕ} (x y : Vector UInt8 n) (l : List (Fin n)) {d : UInt64}
    (hd : d.toNat < 2 ^ 8) :
    (l.foldl (fun d i => d ||| (x.get i ^^^ y.get i).toUInt64) d).toNat < 2 ^ 8 ∧
      (l.foldl (fun d i => d ||| (x.get i ^^^ y.get i).toUInt64) d = 0 ↔
        d = 0 ∧ ∀ i ∈ l, x.get i = y.get i) := by
  induction l generalizing d with
  | nil => exact ⟨hd, by simp⟩
  | cons i l ih =>
    have hbyte : (x.get i ^^^ y.get i).toUInt64.toNat < 2 ^ 8 := (x.get i ^^^ y.get i).toNat_lt
    have hor : (d ||| (x.get i ^^^ y.get i).toUInt64).toNat < 2 ^ 8 := by
      rw [UInt64.toNat_or]
      exact Nat.or_lt_two_pow hd hbyte
    obtain ⟨hlt, hzero⟩ := ih hor
    refine ⟨hlt, ?_⟩
    have hbyte_zero : (x.get i ^^^ y.get i).toUInt64 = 0 ↔ x.get i = y.get i := by
      rw [← UInt8.xor_eq_zero_iff, ← UInt64.toNat_inj, ← UInt8.toNat_inj]
      rfl
    rw [List.foldl_cons, hzero, UInt64.or_eq_zero_iff, hbyte_zero, List.forall_mem_cons, and_assoc]

/-- **The comparison** is 0 for equal bytes and -1 for others. -/
theorem vn_eq {n : ℕ} (x y : Vector UInt8 n) : vn x y = if x = y then 0 else -1 := by
  have heq : x = y ↔ ∀ i ∈ List.finRange n, x.get i = y.get i := by
    constructor
    · rintro rfl i _
      rfl
    · exact fun h => Vector.ext fun i hi => h ⟨i, hi⟩ (List.mem_finRange _)
  obtain ⟨hlt, hzero⟩ := differences x y (List.finRange n) (d := 0) (by norm_num)
  simp only [true_and, ← heq] at hzero
  unfold vn
  generalize (List.finRange n).foldl (fun d i => d ||| (x.get i ^^^ y.get i).toUInt64) 0 = d
    at hlt hzero
  by_cases hd : d = 0
  · rw [if_pos (hzero.mp hd), hd]
    rfl
  · rw [if_neg (mt hzero.mpr hd)]
    -- what is one less than a byte above zero has no ninth bit
    have hpos : 0 < d.toNat := Nat.pos_of_ne_zero fun h => hd (UInt64.toNat_inj.mp h)
    have hshift : (d - 1) >>> 8 = 0 := by
      apply UInt64.toNat_inj.mp
      have hle : (1 : UInt64) ≤ d := UInt64.le_iff_toNat_le.mpr hpos
      rw [UInt64.toNat_shiftRight, UInt64.toNat_sub_of_le _ _ hle]
      show (d.toNat - 1) >>> 8 = 0
      rw [Nat.shiftRight_eq_div_pow]
      omega
    simp only [hshift]
    rfl

/-- **Comparing the bytes** compares the elements. -/
theorem neq25519_spec {a b : Gf} {s t : ℤ} (ha : Within s a) (hs : s ≤ 2 ^ 62) (hb : Within t b)
    (ht : t ≤ 2 ^ 62) : neq25519 a b = some (if val a = val b then 0 else -1) := by
  unfold neq25519
  rw [pack25519_spec ha hs, pack25519_spec hb ht]
  show some (vn (encode (val a)) (encode (val b))) = _
  rw [vn_eq]
  simp only [encode_injective.eq_iff]

/-- **The parity** is that of the element's number. -/
theorem par25519_spec {a : Gf} {s : ℤ} (ha : Within s a) (hs : s ≤ 2 ^ 62) :
    par25519 a = some (UInt8.ofNat ((val a).val % 2)) := by
  unfold par25519
  rw [pack25519_spec ha hs]
  refine congrArg some (UInt8.toNat_inj.mp ?_)
  have hget : (encode (val a)).get ⟨0, Nat.succ_pos 31⟩ = UInt8.ofNat ((val a).val / 256 ^ 0) :=
    Vector.getElem_ofFn (Nat.succ_pos 31)
  rw [hget, UInt8.toNat_and, UInt8.toNat_ofNat', UInt8.toNat_ofNat', pow_zero, Nat.div_one]
  show _ &&& 1 = _
  rw [Nat.and_one_is_mod]
  omega

/-- **A product is packed** as the product of the elements, and no step overflows. -/
theorem pack25519_M {a b : Gf} (ha : Within (2 ^ 26) a) (hb : Within (2 ^ 26) b) :
    (M a b).bind pack25519 = some (encode (val a * val b)) := by
  obtain ⟨o, ho, hwithin, hval⟩ := M_spec ha hb
  rw [ho, Option.bind_some, pack25519_spec hwithin (by norm_num), hval]

theorem pack25519_M_max : (∀ b : ℤ, |b| ≤ 2 ^ 26 → Within (2 ^ 26) (Vector.replicate 16 b)) ∧
    (M (Vector.replicate 16 (2 ^ 26)) (Vector.replicate 16 (-2 ^ 26))).bind pack25519 =
      some (encode (val (Vector.replicate 16 (2 ^ 26)) * val (Vector.replicate 16 (-2 ^ 26)))) := by
  have hwithin : ∀ b : ℤ, |b| ≤ 2 ^ 26 → Within (2 ^ 26) (Vector.replicate 16 b) := by
    intro b hb i
    rwa [show (Vector.replicate 16 b).get i = b from Vector.getElem_replicate i.isLt]
  exact ⟨hwithin, pack25519_M (hwithin _ (by norm_num)) (hwithin _ (by norm_num))⟩

/-- **Strings of 32 bytes**: packing what was unpacked gives the canonical bytes of the same
element, and two strings are told apart just when their low 255 bits are not congruent. -/
theorem canonical_bytes (x y : Vector UInt8 32) :
    (∃ r, pack25519 (unpack25519 x) = some r ∧ leValue r = leValue x % 2 ^ 255 % prime25519) ∧
    ∃ d, neq25519 (unpack25519 x) (unpack25519 y) = some d ∧
      (d = 0 ↔ leValue x % 2 ^ 255 ≡ leValue y % 2 ^ 255 [ZMOD prime25519]) := by
  have hx := unpack25519_spec x
  have hy := unpack25519_spec y
  refine ⟨⟨_, pack25519_spec hx.1 (by norm_num), ?_⟩, _, neq25519_spec hx.1 (by norm_num) hy.1
    (by norm_num), ?_⟩
  · rw [leValue_encode, val, hx.2, ZMod.val_intCast]
  · rw [← ZMod.intCast_eq_intCast_iff, ← hx.2, ← hy.2]
    show _ ↔ val _ = val _
    split <;> simp [*]

end MithAtomas.TweetNacl
