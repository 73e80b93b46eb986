import MithAtomas.TweetNacl.Constants
import MithAtomas.TweetNacl.Packing

/-!
# Scalars

`modL` and `reduce` of `third_party/tweetnacl/tweetnacl.c`: 64 limbs in base 256, of any sign, are
brought below the order of the base point, with no division. From the top down each limb is cleared
by subtracting a multiple of the order; what that carries is kept between -128 and 127. `L` is of an
unsigned type, so that the subtractions wrap (`wrap64`).

`Clearing` is what holds of the limbs between two rounds. `modL_spec` is that the bytes in the end
are the remainder, for any limbs of up to 22 bits: both callers have smaller ones.
-/

namespace MithAtomas.TweetNacl

open CheckedLoop RadixNumber VectorLoop

/-- An `i64` that is computed as a `u64`. -/
def wrap64 (x : ℤ) : ℤ :=
  Int.bmod x (2 ^ 64)

/-- `L` -/
def L : Vector ℤ 32 :=
  #v[0xed, 0xd3, 0xf5, 0x5c, 0x1a, 0x63, 0x12, 0x58, 0xd6, 0x9c, 0xf7, 0xa2, 0xde, 0xf9, 0xde, 0x14,
    0, 0, 0, 0, 0, 0, 0, 0, 0, 0, 0, 0, 0, 0, 0, 0x10]

/-- `j`, by `i - 32` and `j - (i - 32)`. -/
def limbIndex (i : Fin 32) (k : Fin 20) : Fin 64 :=
  ⟨i.val + k.val, by omega⟩

/-- `i - 12` -/
def endIndex (i : Fin 32) : Fin 64 :=
  ⟨i.val + 20, by omega⟩

/-- `i` -/
def topIndex (i : Fin 32) : Fin 64 :=
  ⟨i.val + 32, by omega⟩

/-- The body of the inner loop: the limbs, and what is carried. -/
def modLRound (i : Fin 32) (k : Fin 20) (s : Vector ℤ 64 × ℤ) : Option (Vector ℤ 64 × ℤ) := do
  let (x, carry) := s
  let j := limbIndex i k
  let y ← i64 (16 * x.get (topIndex i))
  let z := wrap64 (x.get j + (carry - y * L.get ⟨k.val, by omega⟩))
  let w ← i64 (z + 128)
  let carry := sar w 8
  let z ← i64 (z - carry * 2 ^ 8)
  pure (setAt x j z, carry)

/-- The body of the outer loop, for the limb `i + 32`. -/
def modLClear (i : Fin 32) (x : Vector ℤ 64) : Option (Vector ℤ 64) := do
  let (x, carry) ← forUp 20 (modLRound i) (x, 0)
  let y ← i64 (x.get (endIndex i) + carry)
  let x := setAt x (endIndex i) y
  pure (setAt x (topIndex i) 0)

/-- `j`, in the loops over the 32 limbs that are left. -/
def lowLimb (j : Fin 32) : Fin 64 :=
  ⟨j.val, by omega⟩

/-- `31` -/
def lastLimb : Fin 64 :=
  ⟨31, by omega⟩

/-- The body of the second loop, which takes what is above the order off. -/
def modLTop (j : Fin 32) (s : Vector ℤ 64 × ℤ) : Option (Vector ℤ 64 × ℤ) := do
  let (x, carry) := s
  let l := lowLimb j
  let z := wrap64 (x.get l + (carry - sar (x.get lastLimb) 4 * L.get j))
  pure (setAt x l (z % 2 ^ 8), sar z 8)

/-- The body of the third loop, which adds the order to a negative number. -/
def modLSign (carry : ℤ) (j : Fin 32) (x : Vector ℤ 64) : Option (Vector ℤ 64) :=
  let l := lowLimb j
  pure (setAt x l (wrap64 (x.get l - carry * L.get j)))

/-- `i+1` -/
def nextLimb (i : Fin 32) : Fin 64 :=
  ⟨i.val + 1, by omega⟩

/-- The body of the last loop: the limbs and the bytes. -/
def modLBytes (i : Fin 32) (s : Vector ℤ 64 × Vector UInt8 32) :
    Option (Vector ℤ 64 × Vector UInt8 32) := do
  let (x, r) := s
  let y ← i64 (x.get (nextLimb i) + sar (x.get (lowLimb i)) 8)
  let x := setAt x (nextLimb i) y
  pure (x, setAt r i (UInt8.ofInt (x.get (lowLimb i) % 2 ^ 8)))

/-- `modL`, which writes every byte of `r`. -/
def modL (x : Vector ℤ 64) : Option (Vector UInt8 32) := do
  let x ← forDown 32 modLClear x
  let (x, carry) ← forUp 32 modLTop (x, 0)
  let x ← forUp 32 (modLSign carry) x
  let (_, r) ← forUp 32 modLBytes (x, Vector.replicate 32 0)
  pure r

/-- `reduce`, of which only the first 32 bytes are read afterwards. -/
def reduce (r : Vector UInt8 64) : Option (Vector UInt8 32) :=
  modL (Vector.ofFn fun i => ((r.get i).toNat : ℤ))

theorem L_facts : value 256 L.get = order25519 ∧
    value 256 (truncate 20 L.get) = order25519 - 16 * 256 ^ 31 ∧
      (∀ k, 0 ≤ L.get k ∧ L.get k ≤ 255) ∧
        ∀ k : Fin 32, 16 ≤ k.val → k.val < 31 → L.get k = 0 := by
  decide +kernel

theorem wrap64_eq {x : ℤ} (h : |x| < 2 ^ 63) : wrap64 x = x := by
  rw [abs_lt] at h
  refine Int.bmod_eq_of_le ?_ ?_ <;> norm_num <;> omega

/-! ### Clearing one limb -/

/-- What one round carries at most. -/
def carryBound (b : ℤ) : ℕ → ℤ
  | 0 => 0
  | k + 1 => if k < 16 then 2 ^ 28 else (b + carryBound b k) / 256 + 1

/-- What holds before round `k`, where the limbs were `x₀` and those of the round but the first are
of size `b`. -/
structure Rounds (x₀ : Vector ℤ 64) (b : ℤ) (i : Fin 32) (k : ℕ) (s : Vector ℤ 64 × ℤ) : Prop where
  value_eq : value 256 s.1.get + s.2 * 256 ^ (i.val + k) = value 256 x₀.get -
    16 * x₀.get (topIndex i) * 256 ^ i.val * value 256 (truncate k L.get)
  carry : |s.2| ≤ carryBound b k
  done : ∀ j : Fin 64, i.val ≤ j.val → j.val < i.val + k → |s.1.get j| ≤ 128
  rest : ∀ j : Fin 64, j.val < i.val ∨ i.val + k ≤ j.val → s.1.get j = x₀.get j

theorem carryBound_le {b : ℤ} (hb : 0 ≤ b) (hb' : b ≤ 2 ^ 22) (k : ℕ) :
    carryBound b k ≤ 2 ^ 28 := by
  induction k with
  | zero => norm_num [carryBound]
  | succ k ih =>
    rw [carryBound]
    split
    · exact le_rfl
    · omega

theorem Rounds.round {x₀ : Vector ℤ 64} {b : ℤ} {i : Fin 32} {k : Fin 20}
    (hb : 128 ≤ b) (hb' : b ≤ 2 ^ 22) (hlow : ∀ j : Fin 64, j.val = i.val → |x₀.get j| ≤ 2 ^ 22)
    (hlimbs : ∀ j : Fin 64, i.val < j.val → j.val < i.val + 20 → |x₀.get j| ≤ b)
    (htop : |x₀.get (topIndex i)| ≤ 2 ^ 23) {s : Vector ℤ 64 × ℤ} (h : Rounds x₀ b i k s) :
    Ensures (modLRound i k s) (Rounds x₀ b i (k + 1)) := by
  obtain ⟨x, carry⟩ := s
  have hL := L_facts.2.2.1 ⟨k.val, by omega⟩
  have hbound := h.carry
  have hbound' := carryBound_le (by omega) hb' k.val
  have htop' : x.get (topIndex i) = x₀.get (topIndex i) := by
    refine h.rest _ (Or.inr ?_)
    show i.val + k.val ≤ i.val + 32
    omega
  obtain ⟨j, hj⟩ : ∃ j, limbIndex i k = j := ⟨_, rfl⟩
  have hj' : j.val = i.val + k.val := hj ▸ rfl
  have hxj : x.get j = x₀.get j := h.rest j (Or.inr hj'.ge)
  obtain ⟨l, hl⟩ : ∃ l, L.get ⟨k.val, by omega⟩ = l := ⟨_, rfl⟩
  obtain ⟨t, ht⟩ : ∃ t, x₀.get (topIndex i) = t := ⟨_, rfl⟩
  rw [hl] at hL
  rw [ht] at htop
  simp only at hbound
  -- the limb of this round is raw only at the start
  have hlimb : |x₀.get j| ≤ 2 ^ 22 := by
    by_cases hk : k.val = 0
    · exact hlow j (by omega)
    · exact (hlimbs j (by omega) (by omega)).trans hb'
  have hproduct : |16 * t * l| ≤ 2 ^ 35 := by
    rw [abs_mul, abs_mul, abs_of_nonneg hL.1]
    calc |(16 : ℤ)| * |t| * l
        ≤ 16 * 2 ^ 23 * 255 := by
          refine mul_le_mul ?_ hL.2 hL.1 (by norm_num)
          exact mul_le_mul_of_nonneg_left htop (by norm_num)
      _ ≤ 2 ^ 35 := by norm_num
  obtain ⟨z, hz⟩ : ∃ z, x₀.get j + (carry - 16 * t * l) = z := ⟨_, rfl⟩
  have hzsize : |z| ≤ 2 ^ 22 + (2 ^ 28 + 2 ^ 35) := by
    rw [← hz]
    refine (abs_add_le _ _).trans (add_le_add hlimb ((abs_sub _ _).trans ?_))
    exact add_le_add (hbound.trans hbound') hproduct
  rw [abs_le] at hzsize
  unfold modLRound
  simp only [hj, htop', hxj, hl, ht]
  refine (ensures_i64 (P := fun y => y = 16 * t) ?_ rfl).bind ?_
  · rw [abs_mul]
    exact lt_of_le_of_lt (mul_le_mul_of_nonneg_left htop (by norm_num)) (by norm_num)
  rintro y rfl
  rw [hz, wrap64_eq (by rw [abs_lt]; omega)]
  refine (ensures_i64 (P := fun w => w = z + 128) (by rw [abs_lt]; omega) rfl).bind ?_
  rintro w rfl
  obtain ⟨c, hc⟩ : ∃ c, sar (z + 128) 8 = c := ⟨_, rfl⟩
  have hc' : c = (z + 128) / 256 := by
    rw [← hc, sar_eq]
    norm_num
  rw [hc]
  refine (ensures_i64 (P := fun v => v = z - c * 2 ^ 8) (by rw [abs_lt]; omega) rfl).bind ?_
  rintro v rfl
  refine ensures_pure.mpr ⟨?_, ?_, fun m hm hm' => ?_, fun m hm => ?_⟩
  · show value 256 (setAt x j (z - c * 2 ^ 8)).get + c * 256 ^ (i.val + (k.val + 1)) = _
    rw [get_set_eq_update, value_update, hxj,
      value_truncate_succ (B := 256) L.get ⟨k.val, by omega⟩, hl, ht, ← add_assoc, pow_succ, hj']
    have hvalue := h.value_eq
    rw [ht] at hvalue
    simp only at hvalue
    linear_combination hvalue - 256 ^ (i.val + k.val) * hz +
      (16 * t * l) * pow_add (256 : ℤ) i.val k.val
  · show |c| ≤ carryBound b (k.val + 1)
    rw [carryBound]
    split
    · rw [abs_le]
      omega
    · next hk =>
      -- from here on the order has no limbs
      have hl0 : l = 0 := hl ▸ L_facts.2.2.2 ⟨k.val, by omega⟩ (not_lt.mp hk)
        (by omega : k.val < 31)
      have hlimb' := hlimbs j (by omega) (by omega)
      rw [hl0, mul_zero, sub_zero] at hz
      rw [abs_le] at hlimb' hbound ⊢
      omega
  · show |(setAt x j (z - c * 2 ^ 8)).get m| ≤ 128
    rw [get_setAt]
    split
    · rw [abs_le]
      omega
    · next hne =>
      exact h.done m hm (by have : m.val ≠ j.val := fun h => hne (Fin.ext h); omega)
  · show (setAt x j (z - c * 2 ^ 8)).get m = _
    rw [get_setAt, if_neg (by rintro rfl; omega)]
    exact h.rest m (by omega)

/-- What holds of the limbs when those below `k + 32` are left: they stand for the number, up to a
multiple of the order. -/
structure Clearing (N : ℤ) (k : ℕ) (x : Vector ℤ 64) : Prop where
  value_eq : ∃ q, value 256 x.get = N - q * order25519
  raw : ∀ j : Fin 64, j.val < k → |x.get j| ≤ 2 ^ 22
  middle : ∀ j : Fin 64, k ≤ j.val → j.val < k + 20 →
    |x.get j| ≤ if k = 32 then 2 ^ 22 else 128
  upper : ∀ j : Fin 64, k + 20 ≤ j.val → |x.get j| ≤ if 51 ≤ j.val then 2 ^ 23 else 129
  cleared : ∀ j : Fin 64, k + 32 ≤ j.val → x.get j = 0

theorem clearing_start {x : Vector ℤ 64} (h : ∀ j, |x.get j| ≤ 2 ^ 22) :
    Clearing (value 256 x.get) 32 x := by
  refine ⟨⟨0, by ring⟩, fun j _ => h j, fun j _ _ => ?_, fun j hj => ?_, fun j hj => ?_⟩
  · rw [if_pos rfl]
    exact h j
  · rw [if_pos (by omega)]
    exact (h j).trans (by norm_num)
  · omega

/-- **Clearing a limb** takes a multiple of the order off. -/
theorem Clearing.clear {N : ℤ} {i : Fin 32} {x : Vector ℤ 64} (h : Clearing N (i + 1) x) :
    Ensures (modLClear i x) (Clearing N i) := by
  obtain ⟨b, hb⟩ : ∃ b : ℤ, (if i.val + 1 = 32 then 2 ^ 22 else 128) = b := ⟨_, rfl⟩
  have hb₀ : 128 ≤ b ∧ b ≤ 2 ^ 22 := by
    rw [← hb]
    split <;> norm_num
  have htop : |x.get (topIndex i)| ≤ 2 ^ 23 := by
    refine (h.upper (topIndex i) (show i.val + 1 + 20 ≤ i.val + 32 by omega)).trans ?_
    split <;> norm_num
  have hmiddle : ∀ j : Fin 64, i.val < j.val → j.val < i.val + 21 → |x.get j| ≤ b := by
    intro j hj hj'
    rw [← hb]
    exact h.middle j hj (by omega)
  have hstart : Rounds x b i 0 (x, 0) := by
    refine ⟨?_, ?_, fun j hj hj' => by omega, fun _ _ => rfl⟩
    · rw [value_truncate_zero]
      ring
    · rw [abs_zero]
      exact le_rfl
  unfold modLClear
  refine (ensures_forUp (Rounds x b i) hstart fun k s hs =>
    hs.round hb₀.1 hb₀.2 (fun j hj => h.raw j (by omega))
      (fun j hj hj' => hmiddle j hj (by omega)) htop).bind ?_
  rintro ⟨x₁, carry⟩ hs
  -- hardly anything is carried out, once the limbs are small
  have hcarry : |carry| ≤ if i.val + 1 = 32 then 2 ^ 15 else 1 := by
    refine hs.carry.trans ?_
    rw [← hb]
    split <;> norm_num [carryBound]
  have hend : x₁.get (endIndex i) = x.get (endIndex i) :=
    hs.rest _ (Or.inr le_rfl)
  have hxend : |x.get (endIndex i)| ≤ b :=
    hmiddle (endIndex i) (show i.val < i.val + 20 by omega) (show i.val + 20 < i.val + 21 by omega)
  have hnew : |x.get (endIndex i) + carry| ≤ if i.val + 1 = 32 then 2 ^ 23 else 129 := by
    refine (abs_add_le _ _).trans ((add_le_add hxend hcarry).trans ?_)
    rw [← hb]
    split <;> norm_num
  have hne : topIndex i ≠ endIndex i := fun heq => by
    have hval : i.val + 32 = i.val + 20 := congrArg Fin.val heq
    omega
  have htop' : x₁.get (topIndex i) = x.get (topIndex i) := by
    refine hs.rest _ (Or.inr (show i.val + 20 ≤ i.val + 32 by omega))
  simp only [hend]
  refine (ensures_i64 (P := fun y => y = x.get (endIndex i) + carry) ?_ rfl).bind ?_
  · refine lt_of_le_of_lt hnew ?_
    split <;> norm_num
  rintro y rfl
  refine ensures_pure.mpr ?_
  obtain ⟨x₂, hx₂⟩ : ∃ x₂ : Vector ℤ 64,
    setAt (setAt x₁ (endIndex i) (x.get (endIndex i) + carry)) (topIndex i) 0 = x₂ := ⟨_, rfl⟩
  have hupdate : x₂.get = Function.update (Function.update x₁.get (endIndex i)
      (x.get (endIndex i) + carry)) (topIndex i) 0 := by
    rw [← hx₂, get_set_eq_update, get_set_eq_update]
  have hother : ∀ j : Fin 64, j.val ≠ i.val + 20 → j.val ≠ i.val + 32 →
      x₂.get j = x₁.get j := by
    intro j hj hj'
    rw [hupdate, Function.update_of_ne fun h => hj' (congrArg Fin.val h),
      Function.update_of_ne fun h => hj (congrArg Fin.val h)]
  rw [hx₂]
  refine ⟨?_, fun j hj => ?_, fun j hj hj' => ?_, fun j hj => ?_, fun j hj => ?_⟩
  · -- sixteen times the order, as often as the limb says, is the limb and what was subtracted
    obtain ⟨q, hq⟩ := h.value_eq
    refine ⟨q + 16 * x.get (topIndex i) * 256 ^ i.val, ?_⟩
    have hvalue := hs.value_eq
    rw [L_facts.2.1, hq] at hvalue
    rw [hupdate, value_update, value_update, Function.update_of_ne hne, htop', hend,
      show (endIndex i).val = i.val + 20 from rfl, show (topIndex i).val = i.val + 32 from rfl]
    simp only at hvalue
    linear_combination hvalue
  · rw [hother j (by omega) (by omega), hs.rest j (Or.inl hj)]
    exact h.raw j (by omega)
  · rw [hother j (by omega) (by omega), if_neg (by omega)]
    exact hs.done j hj (by omega)
  · by_cases hj20 : j.val = i.val + 20
    · obtain rfl : j = endIndex i := Fin.ext hj20
      rw [hupdate, Function.update_of_ne hne.symm, Function.update_self]
      refine hnew.trans ?_
      split <;> split <;> omega
    · by_cases hj32 : j.val = i.val + 32
      · obtain rfl : j = topIndex i := Fin.ext hj32
        rw [hupdate, Function.update_self, abs_zero]
        split <;> norm_num
      · rw [hother j hj20 hj32, hs.rest j (Or.inr (by omega))]
        exact h.upper j (by omega)
  · by_cases hj32 : j.val = i.val + 32
    · obtain rfl : j = topIndex i := Fin.ext hj32
      rw [hupdate, Function.update_self]
    · rw [hother j (by omega) hj32, hs.rest j (Or.inr (by omega))]
      exact h.cleared j (by omega)

/-! ### The last 32 limbs -/

/-- What is left of the number when the limbs above are cleared: it is less than one order from zero
once the last limb has taken off what it can. -/
theorem Clearing.bounds {N : ℤ} {x : Vector ℤ 64} (h : Clearing N 0 x) :
    ∃ low, value 256 x.get = x.get lastLimb * 256 ^ 31 + low ∧ 3 * |low| ≤ 2 * 256 ^ 31 ∧
      |x.get lastLimb| ≤ 129 := by
  have hsmall : ∀ j : Fin 64, |x.get j| ≤ 129 := by
    intro j
    by_cases hj : j.val < 20
    · refine (h.middle j (Nat.zero_le _) (by omega)).trans ?_
      norm_num
    · by_cases hj32 : j.val < 32
      · refine (h.upper j (by omega)).trans ?_
        rw [if_neg (by omega)]
      · rw [h.cleared j (by omega)]
        norm_num
  have hsplit : value 256 x.get = value 256 (fun j : Fin 31 => x.get ⟨j.val, by omega⟩) +
      x.get lastLimb * 256 ^ 31 := by
    have hhalves := value_split (n := 32) (m := 32) (B := 256) x.get
    have hzero : (fun j : Fin 32 => x.get (Fin.natAdd 32 j)) = fun _ => 0 :=
      funext fun j => h.cleared _ (by rw [Fin.val_natAdd]; omega)
    rw [hzero, value_zero, mul_zero, add_zero] at hhalves
    rw [hhalves]
    unfold value
    rw [Fin.sum_univ_castSucc]
    rfl
  have hlow := abs_value_mul_le (by norm_num : (1 : ℤ) ≤ 256)
    fun j : Fin 31 => hsmall ⟨j.val, by omega⟩
  refine ⟨_, by rw [hsplit, add_comm], ?_, hsmall lastLimb⟩
  norm_num at hlow ⊢
  omega

/-- What holds before limb `j` of the second loop, where `x₀` are the limbs and `q` what is taken
off. -/
structure TakingOff (x₀ : Vector ℤ 64) (q : ℤ) (j : ℕ) (s : Vector ℤ 64 × ℤ) : Prop where
  value_eq : value 256 s.1.get + s.2 * 256 ^ j =
    value 256 x₀.get - q * value 256 (truncate j L.get)
  carry : |s.2| ≤ 2 ^ 4
  digits : ∀ l : Fin 64, l.val < j → 0 ≤ s.1.get l ∧ s.1.get l < 256
  rest : ∀ l : Fin 64, j ≤ l.val → s.1.get l = x₀.get l

theorem TakingOff.round {x₀ : Vector ℤ 64} (h₀ : ∀ l : Fin 64, l.val < 32 → |x₀.get l| ≤ 129)
    {q : ℤ} (hq : sar (x₀.get lastLimb) 4 = q) (hq' : |q| ≤ 9) {j : Fin 32}
    {s : Vector ℤ 64 × ℤ} (h : TakingOff x₀ q j s) :
    Ensures (modLTop j s) (TakingOff x₀ q (j + 1)) := by
  obtain ⟨x, carry⟩ := s
  have hL := L_facts.2.2.1 j
  have hcarry := h.carry
  obtain ⟨l, hl⟩ : ∃ l, lowLimb j = l := ⟨_, rfl⟩
  have hl' : l.val = j.val := hl ▸ rfl
  have hxl : x.get l = x₀.get l := h.rest l hl'.ge
  have hlast : x.get lastLimb = x₀.get lastLimb := by
    refine h.rest lastLimb (show j.val ≤ 31 by omega)
  have hlimb := h₀ l (by omega)
  obtain ⟨m, hm⟩ : ∃ m, L.get j = m := ⟨_, rfl⟩
  rw [hm] at hL
  have hproduct : |q * m| ≤ 9 * 255 := by
    rw [abs_mul, abs_of_nonneg hL.1]
    exact mul_le_mul hq' hL.2 hL.1 (by norm_num)
  obtain ⟨z, hz⟩ : ∃ z, x₀.get l + (carry - q * m) = z := ⟨_, rfl⟩
  simp only at hcarry
  rw [abs_le] at hlimb hproduct hcarry
  unfold modLTop
  simp only [hl, hxl, hlast, hq, hm, hz]
  rw [wrap64_eq (by rw [abs_lt]; omega)]
  have hdiv : sar z 8 = z / 256 := by
    rw [sar_eq]
    norm_num
  -- the limb keeps the remainder, and the carry is the quotient
  have hmod := Int.emod_add_mul_ediv z 256
  rw [hdiv, show (2 : ℤ) ^ 8 = 256 by norm_num]
  refine ensures_pure.mpr ⟨?_, ?_, fun k hk => ?_, fun k hk => ?_⟩
  · show value 256 (setAt x l (z % 256)).get + z / 256 * 256 ^ (j.val + 1) = _
    have hvalue := h.value_eq
    simp only at hvalue
    rw [get_set_eq_update, value_update, hxl, value_truncate_succ, hm, hl', pow_succ]
    linear_combination hvalue - 256 ^ j.val * hz + 256 ^ j.val * hmod
  · show |z / 256| ≤ 2 ^ 4
    rw [abs_le]
    omega
  · show 0 ≤ (setAt x l (z % 256)).get k ∧ (setAt x l (z % 256)).get k < 256
    rw [get_setAt]
    split
    · exact ⟨Int.emod_nonneg _ (by norm_num), Int.emod_lt_of_pos _ (by norm_num)⟩
    · next hne =>
      exact h.digits k (by have : k.val ≠ l.val := fun h => hne (Fin.ext h); omega)
  · show (setAt x l (z % 256)).get k = _
    rw [get_setAt, if_neg (by rintro rfl; omega)]
    exact h.rest k (by omega)

/-- The third loop, limb by limb. -/
theorem modLSign_spec {x : Vector ℤ 64} {carry : ℤ} (hcarry : |carry| ≤ 1)
    (hx : ∀ l : Fin 64, l.val < 32 → 0 ≤ x.get l ∧ x.get l < 256) :
    Ensures (forUp 32 (modLSign carry) x) fun y =>
      value 256 y.get = value 256 x.get - carry * order25519 ∧
        (∀ l : Fin 64, l.val < 32 → |y.get l| ≤ 2 ^ 10) ∧
          ∀ l : Fin 64, 32 ≤ l.val → y.get l = x.get l := by
  have hstep : ∀ j : Fin 32, |carry * L.get j| ≤ 255 := by
    intro j
    have hL := L_facts.2.2.1 j
    rw [abs_mul, abs_of_nonneg hL.1]
    exact (mul_le_mul hcarry hL.2 hL.1 (by norm_num)).trans (by norm_num)
  refine (ensures_forUp (fun j (y : Vector ℤ 64) =>
    value 256 y.get = value 256 x.get - carry * value 256 (truncate j L.get) ∧
      (∀ l : Fin 64, l.val < j → |y.get l| ≤ 2 ^ 10) ∧
        ∀ l : Fin 64, j ≤ l.val → y.get l = x.get l) ?_ ?_).mono ?_
  · refine ⟨?_, fun l hl => absurd hl (Nat.not_lt_zero _), fun _ _ => rfl⟩
    rw [value_truncate_zero, mul_zero, sub_zero]
  · -- limb `j` loses its multiple of the order's
    rintro j y ⟨hvalue, hdone, hrest⟩
    obtain ⟨l, hl⟩ : ∃ l, lowLimb j = l := ⟨_, rfl⟩
    have hl' : l.val = j.val := hl ▸ rfl
    have hyl := hrest l hl'.ge
    have hxl := hx l (by omega)
    have hsize := hstep j
    rw [abs_le] at hsize
    unfold modLSign
    simp only [hl, hyl]
    rw [wrap64_eq (by rw [abs_lt]; omega)]
    refine ensures_pure.mpr ⟨?_, fun k hk => ?_, fun k hk => ?_⟩
    · rw [get_set_eq_update, value_update, hvalue, value_truncate_succ, hyl, hl']
      ring
    · rw [get_setAt]
      split
      · rw [abs_le]
        omega
      · next hne =>
        exact hdone k (by have : k.val ≠ l.val := fun h => hne (Fin.ext h); omega)
    · rw [get_setAt, if_neg (by rintro rfl; omega)]
      exact hrest k (by omega)
  · rintro y ⟨hvalue, hdone, hrest⟩
    rw [truncate_all, L_facts.1] at hvalue
    exact ⟨hvalue, hdone, hrest⟩

/-- What holds before byte `i`: the bytes, and the limbs from there on, are the number. -/
structure Emitting (y : Vector ℤ 64) (i : ℕ) (s : Vector ℤ 64 × Vector UInt8 32) : Prop where
  value_eq : value 256 (fun j : Fin 64 => if h : j.val < i ∧ j.val < 32 then
    ((s.2.get ⟨j.val, h.2⟩).toNat : ℤ) else s.1.get j) = value 256 y.get
  here : ∀ j : Fin 64, j.val = i → |s.1.get j| ≤ 2 ^ 11
  rest : ∀ j : Fin 64, i < j.val → s.1.get j = y.get j

theorem Emitting.round {y : Vector ℤ 64} (hy : ∀ j, |y.get j| ≤ 2 ^ 10) {i : Fin 32}
    {s : Vector ℤ 64 × Vector UInt8 32} (h : Emitting y i s) :
    Ensures (modLBytes i s) (Emitting y (i + 1)) := by
  obtain ⟨x, r⟩ := s
  have hi := i.isLt
  obtain ⟨l, hl⟩ : ∃ l, lowLimb i = l := ⟨_, rfl⟩
  obtain ⟨m, hm⟩ : ∃ m, nextLimb i = m := ⟨_, rfl⟩
  have hl' : l.val = i.val := hl ▸ rfl
  have hm' : m.val = i.val + 1 := hm ▸ rfl
  have hne : l ≠ m := fun heq => by rw [heq] at hl'; omega
  have hhere := h.here l hl'
  have hnext : x.get m = y.get m := h.rest m (show i.val < m.val by omega)
  have hlimb := hy m
  simp only at hhere
  have hdiv : sar (x.get l) 8 = x.get l / 256 := by
    rw [sar_eq]
    norm_num
  have hmod := Int.emod_add_mul_ediv (x.get l) 256
  rw [abs_le] at hhere hlimb
  have hsum : |y.get m + x.get l / 256| ≤ 2 ^ 11 := by
    rw [abs_le]
    omega
  unfold modLBytes
  simp only [hl, hm, hnext, hdiv]
  refine (ensures_i64 (P := fun z => z = y.get m + x.get l / 256)
    (lt_of_le_of_lt hsum (by norm_num)) rfl).bind ?_
  rintro z rfl
  have hself : (setAt x m (y.get m + x.get l / 256)).get l = x.get l := by
    rw [get_setAt, if_neg hne]
  rw [hself]
  refine ensures_pure.mpr ⟨?_, fun j hj => ?_, fun j hj => ?_⟩
  · -- the byte is the remainder of its limb, and the next limb has the quotient
    have hbytes : (fun j : Fin 64 => if h : j.val < i.val + 1 ∧ j.val < 32 then
        (((setAt r i (UInt8.ofInt (x.get l % 2 ^ 8))).get ⟨j.val, h.2⟩).toNat : ℤ)
          else (setAt x m (y.get m + x.get l / 256)).get j) =
        Function.update (Function.update (fun j : Fin 64 => if h : j.val < i.val ∧ j.val < 32 then
          ((r.get ⟨j.val, h.2⟩).toNat : ℤ) else x.get j) m (y.get m + x.get l / 256)) l
            (x.get l % 256) := by
      funext j
      by_cases hjl : j = l
      · rw [hjl, Function.update_self, dif_pos ⟨by omega, by omega⟩, get_setAt,
          if_pos (Fin.ext hl'), toNat_ofInt]
        omega
      · rw [Function.update_of_ne hjl]
        have hjl' : j.val ≠ l.val := fun h => hjl (Fin.ext h)
        by_cases hjm : j = m
        · rw [hjm, Function.update_self, dif_neg (by omega), get_setAt, if_pos rfl]
        · rw [Function.update_of_ne hjm]
          by_cases hj : j.val < i.val ∧ j.val < 32
          · rw [dif_pos hj, dif_pos ⟨by omega, hj.2⟩, get_setAt, if_neg]
            intro heq
            have hval : j.val = i.val := congrArg Fin.val heq
            omega
          · rw [dif_neg hj, dif_neg (by omega), get_setAt, if_neg hjm]
    have hvalue := h.value_eq
    simp only at hvalue
    show value 256 (fun j : Fin 64 => if h : j.val < i.val + 1 ∧ j.val < 32 then
      (((setAt r i (UInt8.ofInt (x.get l % 2 ^ 8))).get ⟨j.val, h.2⟩).toNat : ℤ)
        else (setAt x m (y.get m + x.get l / 256)).get j) = _
    rw [hbytes, value_update, value_update, hvalue, Function.update_of_ne hne, dif_neg (by omega),
      dif_neg (by omega), hnext, hl', hm', pow_succ]
    linear_combination 256 ^ i.val * hmod
  · obtain rfl : j = m := Fin.ext (by omega)
    show |(setAt x j (y.get j + x.get l / 256)).get j| ≤ 2 ^ 11
    rw [get_setAt, if_pos rfl]
    exact hsum
  · show (setAt x m (y.get m + x.get l / 256)).get j = y.get j
    rw [get_setAt, if_neg (by rintro rfl; omega)]
    exact h.rest j (show i.val < j.val by omega)

theorem modLBytes_spec {y : Vector ℤ 64} (hy : ∀ j, |y.get j| ≤ 2 ^ 10) (r : Vector UInt8 32) :
    Ensures (forUp 32 modLBytes (y, r)) fun s => leValue s.2 = value 256 y.get % 2 ^ 256 := by
  refine (ensures_forUp (Emitting y) ⟨?_, fun j _ => ?_, fun _ _ => rfl⟩
    fun i s hs => hs.round hy).mono fun s hs => ?_
  · rfl
  · exact (hy j).trans (by norm_num)
  · have hvalue := hs.value_eq
    rw [value_split (n := 32) (m := 32)] at hvalue
    have hlow : (fun j : Fin 32 => if h : (Fin.castAdd 32 j).val < 32 ∧
        (Fin.castAdd 32 j).val < 32 then ((s.2.get ⟨(Fin.castAdd 32 j).val, h.2⟩).toNat : ℤ)
          else s.1.get (Fin.castAdd 32 j)) = fun j => ((s.2.get j).toNat : ℤ) := by
      funext j
      rw [dif_pos ⟨j.isLt, j.isLt⟩]
      rfl
    rw [hlow] at hvalue
    change leValue s.2 + _ = _ at hvalue
    have hnonneg := leValue_nonneg s.2
    have hlt := leValue_lt s.2
    norm_num at hvalue hlt ⊢
    omega

/-! ### The remainder -/

theorem order25519_eq : (order25519 : ℤ) =
    16 * 256 ^ 31 + 27742317777372353535851937790883648493 := by
  norm_num [order25519]

/-- **The remainder** modulo the order, of limbs of any sign of up to 22 bits. -/
theorem modL_spec {x : Vector ℤ 64} (hx : ∀ j, |x.get j| ≤ 2 ^ 22) :
    Ensures (modL x) fun r => leValue r = value 256 x.get % order25519 := by
  have horder := order25519_eq
  unfold modL
  refine (ensures_forDown (Clearing (value 256 x.get)) (clearing_start hx)
    fun i x hx => hx.clear).bind fun x₁ hx₁ => ?_
  obtain ⟨q₁, hq₁⟩ := hx₁.value_eq
  obtain ⟨low, hsplit, hsize, hlast⟩ := hx₁.bounds
  have hsmall : ∀ l : Fin 64, l.val < 32 → |x₁.get l| ≤ 129 := by
    intro l hl
    by_cases hl20 : l.val < 20
    · exact (hx₁.middle l (Nat.zero_le _) (by omega)).trans (by norm_num)
    · refine (hx₁.upper l (by omega)).trans ?_
      rw [if_neg (by omega)]
  obtain ⟨q, hq⟩ : ∃ q, sar (x₁.get lastLimb) 4 = q := ⟨_, rfl⟩
  have hq' : q = x₁.get lastLimb / 16 := by
    rw [← hq, sar_eq]
    norm_num
  have hstart : TakingOff x₁ q 0 (x₁, 0) := by
    refine ⟨?_, by norm_num, fun l hl => absurd hl (Nat.not_lt_zero _), fun _ _ => rfl⟩
    rw [value_truncate_zero]
    ring
  rw [abs_le] at hlast
  have hlow := neg_abs_le low
  have hlow' := le_abs_self low
  have hqsize : |q| ≤ 9 := by
    rw [abs_le]
    omega
  refine (ensures_forUp (TakingOff x₁ q) hstart fun j s hs => hs.round hsmall hq hqsize).bind ?_
  rintro ⟨x₂, carry⟩ hs
  have hvalue := hs.value_eq
  rw [truncate_all, L_facts.1] at hvalue
  simp only at hvalue hs
  -- what is left after the second loop are digits, and a sign
  have hdigits : 0 ≤ value 256 x₂.get ∧ value 256 x₂.get < 256 ^ 32 := by
    have hzero : (fun j : Fin 32 => x₂.get (Fin.natAdd 32 j)) = fun _ => 0 :=
      funext fun j => (hs.rest _ (by rw [Fin.val_natAdd]; omega)).trans
        (hx₁.cleared _ (by rw [Fin.val_natAdd]; omega))
    have hbyte : ∀ j : Fin 32, 0 ≤ x₂.get (Fin.castAdd 32 j) ∧ x₂.get (Fin.castAdd 32 j) < 256 :=
      fun j => hs.digits _ j.isLt
    rw [value_split (n := 32) (m := 32), hzero, value_zero, mul_zero, add_zero]
    exact ⟨value_nonneg (by norm_num) fun j => (hbyte j).1, value_lt (by norm_num) hbyte⟩
  -- the number that is left, with its sign
  obtain ⟨rest, hrest⟩ : ∃ rest, value 256 x₂.get + carry * 256 ^ 32 = rest := ⟨_, rfl⟩
  have hleft : rest = (x₁.get lastLimb - 16 * q) * 256 ^ 31 + low -
      q * 27742317777372353535851937790883648493 := by
    rw [← hrest, hvalue, hsplit, horder]
    ring
  have hlimb : 0 ≤ x₁.get lastLimb - 16 * q ∧ x₁.get lastLimb - 16 * q ≤ 15 := by
    omega
  rw [abs_le] at hqsize
  have hbounds : -order25519 < rest ∧ rest < order25519 := by
    rw [horder, hleft]
    norm_num at hsize ⊢
    omega
  have hcarry : carry = 0 ∧ 0 ≤ rest ∨ carry = -1 ∧ rest < 0 := by
    rw [horder] at hbounds
    norm_num at hdigits hrest hbounds
    omega
  have hcarrySize : |carry| ≤ 1 := by
    rw [abs_le]
    omega
  refine (modLSign_spec hcarrySize fun l hl => hs.digits l hl).bind fun y hy => ?_
  have hysize : ∀ j, |y.get j| ≤ 2 ^ 10 := by
    intro j
    by_cases hj : j.val < 32
    · exact hy.2.1 j hj
    · rw [hy.2.2 j (by omega), hs.rest j (by omega), hx₁.cleared j (by omega)]
      norm_num
  refine (modLBytes_spec hysize _).bind ?_
  rintro ⟨y', r⟩ hr
  refine ensures_pure.mpr ?_
  simp only at hr
  rw [hr, hy.1]
  have hrange : 0 ≤ rest - carry * order25519 ∧ rest - carry * order25519 < order25519 := by
    rcases hcarry with ⟨rfl, hsign⟩ | ⟨rfl, hsign⟩ <;> omega
  have hmultiple : value 256 x.get =
      rest - carry * order25519 + order25519 * (q + q₁ + carry) := by
    linear_combination hrest - hq₁ - hvalue
  have hbytes : value 256 x₂.get - carry * order25519 =
      rest - carry * order25519 + 2 ^ 256 * -carry := by
    rw [← hrest]
    ring
  rw [hmultiple, Int.add_mul_emod_self_left, Int.emod_eq_of_lt hrange.1 hrange.2, hbytes,
    Int.add_mul_emod_self_left]
  refine Int.emod_eq_of_lt hrange.1 (hrange.2.trans ?_)
  rw [horder]
  norm_num

/-- **A hash as a scalar.** -/
theorem reduce_spec (r : Vector UInt8 64) :
    Ensures (reduce r) fun s => leValue s = leValue r % order25519 := by
  have hget : (Vector.ofFn fun i => ((r.get i).toNat : ℤ)).get = fun i => ((r.get i).toNat : ℤ) :=
    funext fun i => Vector.getElem_ofFn i.isLt
  refine (modL_spec fun j => ?_).mono fun s hs => ?_
  · have hbyte := byte_bounds (r.get j)
    rw [hget]
    show |((r.get j).toNat : ℤ)| ≤ 2 ^ 22
    rw [abs_le]
    omega
  · rw [hs, hget]
    rfl

/-- **The remainder's bytes** are those of a number below the order, whatever the signs of the
limbs, and no step overflows. -/
theorem modL_remainder {x : Vector ℤ 64} (hx : ∀ j, |x.get j| ≤ 2 ^ 22) :
    ∃ r, modL x = some r ∧ leValue r < order25519 ∧
      leValue r ≡ value 256 x.get [ZMOD order25519] := by
  have hpos : (0 : ℤ) < order25519 := by norm_num [order25519]
  obtain ⟨r, hr, hvalue⟩ := modL_spec hx
  refine ⟨r, hr, ?_, ?_⟩
  · rw [hvalue]
    exact Int.emod_lt_of_pos _ hpos
  · rw [hvalue]
    exact Int.mod_modEq _ _

theorem modL_remainder_min : (∀ j, |(Vector.replicate 64 (-2 ^ 22 : ℤ)).get j| ≤ 2 ^ 22) ∧
    ∃ r, modL (Vector.replicate 64 (-2 ^ 22)) = some r ∧ leValue r < order25519 ∧
      leValue r ≡ value 256 (Vector.replicate 64 (-2 ^ 22)).get [ZMOD order25519] := by
  have hx : ∀ j, |(Vector.replicate 64 (-2 ^ 22 : ℤ)).get j| ≤ 2 ^ 22 := by
    intro j
    rw [show (Vector.replicate 64 (-2 ^ 22 : ℤ)).get j = -2 ^ 22 from
      Vector.getElem_replicate j.isLt]
    norm_num
  exact ⟨hx, modL_remainder hx⟩

end MithAtomas.TweetNacl
