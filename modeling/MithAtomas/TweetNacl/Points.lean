import MithAtomas.TweetNacl.Constants
import MithAtomas.TweetNacl.Packing

/-!
# Points of the curve

The points of `third_party/tweetnacl/tweetnacl.c` in four field elements: their addition, their
multiples by a ladder that swaps its two points by masks, and their encoding in 32 bytes.

`Stands p P` says that the limbs `p` are as small as a multiplication leaves them and stand for the
point `P`. `scalarmult_spec` is that the ladder computes the multiple, whatever the scalar, and
`unpackneg_spec` that decoding gives the opposite of what was encoded, and fails where there is no
point.
-/

namespace MithAtomas.TweetNacl

open CheckedLoop RadixNumber EdwardsCurve VectorLoop

/-! ### Powers -/

/-- Squares `n` times, and multiplies by `i` after each but those in `skip`. -/
def squareMultiply (n : ℕ) (skip : List ℕ) (i : Gf) : Option Gf :=
  forDown n (fun a c => do
    let c ← S c
    if a.val ∉ skip then M c i else pure c) i

/-- `inv25519` -/
def inv25519 (i : Gf) : Option Gf :=
  squareMultiply 254 [2, 4] i

/-- `pow2523` -/
def pow2523 (i : Gf) : Option Gf :=
  squareMultiply 251 [1] i

/-- The exponent after all rounds. -/
def exponent (n : ℕ) (skip : List ℕ) : ℕ :=
  (List.finRange n).reverse.foldl (fun e a => 2 * e + if a.val ∉ skip then 1 else 0) 1

theorem squareMultiply_spec {i : Gf} (hi : Within (2 ^ 26) i) (n : ℕ) (skip : List ℕ) :
    Ensures (squareMultiply n skip i) fun o =>
      Within (2 ^ 26) o ∧ val o = val i ^ exponent n skip := by
  refine ensures_foldlM (fun o e => Within (2 ^ 26) o ∧ val o = val i ^ e) _ ?_
    ⟨hi, (pow_one _).symm⟩
  rintro c e a - ⟨hc, hval⟩
  refine (M_spec hc hc).bind fun c' hc' => ?_
  have hsquare : val c' = val i ^ (2 * e) := by
    rw [hc'.2, hval, ← pow_add, two_mul]
  split
  · refine (M_spec (hc'.1.mono (by norm_num)) hi).mono fun o ho => ⟨ho.1.mono (by norm_num), ?_⟩
    rw [ho.2, hsquare, pow_succ]
  · exact ensures_pure.mpr ⟨hc'.1.mono (by norm_num), hsquare⟩

private theorem exponents : exponent 254 [2, 4] = prime25519 - 2 ∧
    exponent 251 [1] = (prime25519 - 5) / 8 := by
  decide +kernel

/-- **The inverse**, which is zero for zero. -/
theorem inv25519_spec {i : Gf} (hi : Within (2 ^ 26) i) :
    Ensures (inv25519 i) fun o => Within (2 ^ 26) o ∧ val o = (val i)⁻¹ := by
  refine (squareMultiply_spec hi 254 [2, 4]).mono fun o ho => ⟨ho.1, ?_⟩
  rw [ho.2, exponents.1]
  have hp : 2 < prime25519 := by norm_num [prime25519]
  by_cases h0 : val i = 0
  · rw [h0, inv_zero, zero_pow (by omega)]
  · refine eq_inv_of_mul_eq_one_left ?_
    rw [← pow_succ, show prime25519 - 2 + 1 = prime25519 - 1 by omega]
    exact ZMod.pow_card_sub_one_eq_one h0

/-- **The inverse is packed** as the inverse of the element. -/
theorem pack25519_inv25519 {i : Gf} (hi : Within (2 ^ 26) i) :
    (inv25519 i).bind pack25519 = some (encode (val i)⁻¹) := by
  obtain ⟨o, ho, hwithin, hval⟩ := inv25519_spec hi
  rw [ho, Option.bind_some, pack25519_spec hwithin (by norm_num), hval]

theorem pack25519_inv25519_D : Within (2 ^ 26) D ∧ val D ≠ 0 ∧
    (inv25519 D).bind pack25519 = some (encode (val D)⁻¹) := by
  have hwithin := constants_within.2.2.1.mono (show (2 : ℤ) ^ 16 ≤ 2 ^ 26 by norm_num)
  refine ⟨hwithin, fun hzero => not_isSquare_val_D ?_, pack25519_inv25519 hwithin⟩
  rw [hzero]
  exact IsSquare.zero

theorem pow2523_spec {i : Gf} (hi : Within (2 ^ 26) i) :
    Ensures (pow2523 i) fun o => Within (2 ^ 26) o ∧ val o = val i ^ ((prime25519 - 5) / 8) := by
  refine (squareMultiply_spec hi 251 [1]).mono fun o ho => ⟨ho.1, ?_⟩
  rw [ho.2, exponents.2]

/-! ### Addition -/

/-- `add`, which reads both points before it writes the first. -/
def add (p q : Extended Gf) : Option (Extended Gf) := do
  let a ← Z p.Y p.X
  let t ← Z q.Y q.X
  let a ← M a t
  let b ← A p.X p.Y
  let t ← A q.X q.Y
  let b ← M b t
  let c ← M p.T q.T
  let c ← M c D2
  let d ← M p.Z q.Z
  let d ← A d d
  let e ← Z b a
  let f ← Z d c
  let g ← A d c
  let h ← A b a
  let x ← M e f
  let y ← M h g
  let z ← M g f
  let t ← M e h
  pure ⟨x, y, z, t⟩

/-- The limbs `p` stand for the point `P`. -/
structure Stands (p : Extended Gf) (P : Point ed25519) : Prop where
  x_within : Within (2 ^ 17) p.X
  y_within : Within (2 ^ 17) p.Y
  z_within : Within (2 ^ 17) p.Z
  t_within : Within (2 ^ 17) p.T
  represents : Represents (p.map val) P

/-- **The sum** of any two points. -/
theorem add_spec {p q : Extended Gf} {P Q : Point ed25519} (hp : Stands p P) (hq : Stands q Q) :
    Ensures (add p q) (Stands · (P + Q)) := by
  unfold add
  refine (Z_spec hp.y_within hp.x_within (by norm_num)).bind fun a₀ ha₀ => ?_
  refine (Z_spec hq.y_within hq.x_within (by norm_num)).bind fun t₀ ht₀ => ?_
  refine (M_spec (ha₀.1.mono (by norm_num)) (ht₀.1.mono (by norm_num))).bind fun a ha => ?_
  refine (A_spec hp.x_within hp.y_within (by norm_num)).bind fun b₀ hb₀ => ?_
  refine (A_spec hq.x_within hq.y_within (by norm_num)).bind fun t₁ ht₁ => ?_
  refine (M_spec (hb₀.1.mono (by norm_num)) (ht₁.1.mono (by norm_num))).bind fun b hb => ?_
  refine (M_spec (hp.t_within.mono (by norm_num)) (hq.t_within.mono (by norm_num))).bind
    fun c₀ hc₀ => ?_
  refine (M_spec (hc₀.1.mono (by norm_num)) (constants_within.2.2.2.1.mono (by norm_num))).bind
    fun c hc => ?_
  refine (M_spec (hp.z_within.mono (by norm_num)) (hq.z_within.mono (by norm_num))).bind
    fun d₀ hd₀ => ?_
  refine (A_spec hd₀.1 hd₀.1 (by norm_num)).bind fun d hd => ?_
  refine (Z_spec hb.1 ha.1 (by norm_num)).bind fun e he => ?_
  refine (Z_spec hd.1 hc.1 (by norm_num)).bind fun f hf => ?_
  refine (A_spec hd.1 hc.1 (by norm_num)).bind fun g hg => ?_
  refine (A_spec hb.1 ha.1 (by norm_num)).bind fun h hh => ?_
  refine (M_spec (he.1.mono (by norm_num)) (hf.1.mono (by norm_num))).bind fun x hx => ?_
  refine (M_spec (hh.1.mono (by norm_num)) (hg.1.mono (by norm_num))).bind fun y hy => ?_
  refine (M_spec (hg.1.mono (by norm_num)) (hf.1.mono (by norm_num))).bind fun z hz => ?_
  refine (M_spec (he.1.mono (by norm_num)) (hh.1.mono (by norm_num))).bind fun t ht => ?_
  refine ensures_pure.mpr ⟨hx.1, hy.1, hz.1, ht.1, ?_⟩
  -- step by step the unified addition of the values
  have hsum : (⟨x, y, z, t⟩ : Extended Gf).map val =
      Extended.add (2 * ed25519.d) (p.map val) (q.map val) := by
    have hd2 : val D2 = 2 * ed25519.d := val_D2
    simp only [Extended.map, Extended.add, hx.2, hy.2, hz.2, ht.2, he.2, hf.2, hg.2, hh.2, hb.2,
      ha.2, hd.2, hc.2, hd₀.2, hc₀.2, ha₀.2, hb₀.2, ht₀.2, ht₁.2, hd2]
  rw [hsum]
  exact hp.represents.add hq.represents

/-! ### Multiples -/

/-- `cswap` -/
def cswap (p q : Extended Gf) (b : ℤ) : Extended Gf × Extended Gf :=
  let x := sel25519 p.X q.X b
  let y := sel25519 p.Y q.Y b
  let z := sel25519 p.Z q.Z b
  let t := sel25519 p.T q.T b
  (⟨x.1, y.1, z.1, t.1⟩, ⟨x.2, y.2, z.2, t.2⟩)

/-- `(s[i/8]>>(i&7))&1` -/
def scalarBit (s : Vector UInt8 32) (i : Fin 256) : UInt8 :=
  (s.get ⟨i.val / 8, by omega⟩ >>> UInt8.ofNat (i.val % 8)) &&& 1

/-- `scalarmult`: what is left in `p` and in `q`. -/
def scalarmult (q : Extended Gf) (s : Vector UInt8 32) : Option (Extended Gf × Extended Gf) :=
  forDown 256 (fun i (p, q) => do
    let b : ℤ := (scalarBit s i).toNat
    let (p, q) := cswap p q b
    let q ← add q p
    let p ← add p p
    pure (cswap p q b)) (⟨gf0, gf1, gf1, gf0⟩, q)

/-- `scalarbase` -/
def scalarbase (s : Vector UInt8 32) : Option (Extended Gf) := do
  let t ← M X Y
  let (p, _) ← scalarmult ⟨X, Y, gf1, t⟩ s
  pure p

theorem cswap_eq (p q : Extended Gf) (b : Bool) :
    cswap p q (if b then 1 else 0) = if b then (q, p) else (p, q) := by
  unfold cswap
  simp only [sel25519_eq]
  cases b <;> rfl

/-- The number in the bytes of a scalar. -/
def scalar (s : Vector UInt8 32) : ℕ :=
  (leValue s).toNat

theorem scalar_lt (s : Vector UInt8 32) : scalar s < 2 ^ 256 := by
  have hlt := leValue_lt s
  have hnonneg := leValue_nonneg s
  unfold scalar
  norm_num at hlt ⊢
  omega

/-- A byte of a scalar. -/
theorem toNat_get_eq_scalar (s : Vector UInt8 32) (i : Fin 32) :
    (s.get i).toNat = scalar s / 256 ^ i.val % 256 := by
  have hdigit := toNat_get_eq_digit s i
  have hnonneg := leValue_nonneg s
  have hcast : ((scalar s : ℕ) : ℤ) = leValue s := Int.toNat_of_nonneg hnonneg
  rw [digit, ← hcast] at hdigit
  exact_mod_cast hdigit

/-- A bit of a scalar. -/
theorem scalarBit_eq (s : Vector UInt8 32) (i : Fin 256) :
    (scalarBit s i).toNat = scalar s / 2 ^ i.val % 2 := by
  have hbyte := toNat_get_eq_scalar s ⟨i.val / 8, by omega⟩
  have hi : i.val = 8 * (i.val / 8) + i.val % 8 := by omega
  have hr : i.val % 8 < 8 := Nat.mod_lt _ (by norm_num)
  have hshift : (UInt8.ofNat (i.val % 8)).toNat = i.val % 8 := by
    rw [UInt8.toNat_ofNat']
    omega
  calc (scalarBit s i).toNat
      = (s.get ⟨i.val / 8, by omega⟩).toNat / 2 ^ (i.val % 8) % 2 := by
        rw [scalarBit, UInt8.toNat_and, UInt8.toNat_shiftRight, hshift, Nat.mod_eq_of_lt hr,
          Nat.shiftRight_eq_div_pow]
        exact Nat.and_one_is_mod _
    _ = scalar s / 2 ^ (8 * (i.val / 8)) / 2 ^ (i.val % 8) % 2 := by
        rw [hbyte, pow_mul, show (2 : ℕ) ^ 8 = 256 by norm_num]
        generalize scalar s / 256 ^ (i.val / 8) = m
        generalize i.val % 8 = r at hr
        interval_cases r <;> omega
    _ = scalar s / 2 ^ i.val % 2 := by
        rw [Nat.div_div_eq_div_mul, ← pow_add, ← hi]

/-- The two points of the ladder when `k` rounds are left: the multiple by the bits read so far, and
one more. -/
def Ladder (s : Vector UInt8 32) (Q : Point ed25519) (k : ℕ) (pq : Extended Gf × Extended Gf) :
    Prop :=
  Stands pq.1 ((scalar s / 2 ^ k) • Q) ∧ Stands pq.2 ((scalar s / 2 ^ k + 1) • Q)

theorem stands_zero : Stands ⟨gf0, gf1, gf1, gf0⟩ 0 := by
  have h0 := constants_within.1.mono (show (2 : ℤ) ^ 16 ≤ 2 ^ 17 by norm_num)
  have h1 := constants_within.2.1.mono (show (2 : ℤ) ^ 16 ≤ 2 ^ 17 by norm_num)
  refine ⟨h0, h1, h1, h0, ?_⟩
  simpa [Extended.map] using represents_zero (E := ed25519)

/-- **A round of the ladder.** -/
theorem Ladder.round {s : Vector UInt8 32} {Q : Point ed25519} {i : Fin 256}
    {p q : Extended Gf} (h : Ladder s Q (i + 1) (p, q)) :
    Ensures (do
      let b : ℤ := (scalarBit s i).toNat
      let (p, q) := cswap p q b
      let q ← add q p
      let p ← add p p
      pure (cswap p q b)) (Ladder s Q i) := by
  obtain ⟨hp, hq⟩ := h
  have hbit := scalarBit_eq s i
  -- the next bit goes in at the end
  have hnext : scalar s / 2 ^ i.val =
      2 * (scalar s / 2 ^ (i.val + 1)) + scalar s / 2 ^ i.val % 2 := by
    rw [pow_succ, ← Nat.div_div_eq_div_mul]
    omega
  generalize hk : scalar s / 2 ^ (i.val + 1) = k at hp hq hnext
  have hbool : ((scalarBit s i).toNat : ℤ) =
      if decide (scalar s / 2 ^ i.val % 2 = 1) then 1 else 0 := by
    rw [hbit]
    rcases Nat.mod_two_eq_zero_or_one (scalar s / 2 ^ i.val) with h | h <;> simp [h]
  simp only [hbool, cswap_eq]
  unfold Ladder
  rcases Nat.mod_two_eq_zero_or_one (scalar s / 2 ^ i.val) with h0 | h1
  · rw [h0, Nat.add_zero] at hnext
    simp only [h0, zero_ne_one, decide_false, Bool.false_eq_true, if_false]
    refine (add_spec hq hp).bind fun q' hq' => ?_
    refine (add_spec hp hp).bind fun p' hp' => ensures_pure.mpr ⟨?_, ?_⟩
    · rwa [hnext, two_mul, add_nsmul]
    · rwa [hnext, show 2 * k + 1 = k + 1 + k by ring, add_nsmul]
  · rw [h1] at hnext
    simp only [h1, decide_true, if_true]
    refine (add_spec hp hq).bind fun q' hq' => ?_
    refine (add_spec hq hq).bind fun p' hp' => ensures_pure.mpr ⟨?_, ?_⟩
    · rwa [hnext, show 2 * k + 1 = k + (k + 1) by ring, add_nsmul]
    · rwa [hnext, show 2 * k + 1 + 1 = k + 1 + (k + 1) by ring, add_nsmul]

theorem scalarmult_ladder {q : Extended Gf} {Q : Point ed25519} (hq : Stands q Q)
    (s : Vector UInt8 32) : Ensures (scalarmult q s) (Ladder s Q 0) := by
  have hstart : scalar s / 2 ^ 256 = 0 := Nat.div_eq_of_lt (scalar_lt s)
  refine ensures_forDown (Ladder s Q) ?_ fun i pq hpq => hpq.round
  unfold Ladder
  rw [hstart, zero_nsmul, zero_add, one_nsmul]
  exact ⟨stands_zero, hq⟩

/-- **The ladder** computes the multiple, whatever the scalar. -/
theorem scalarmult_spec {q : Extended Gf} {Q : Point ed25519} (hq : Stands q Q)
    (s : Vector UInt8 32) :
    Ensures (scalarmult q s) fun pq => Stands pq.1 (scalar s • Q) := by
  refine (scalarmult_ladder hq s).mono fun pq hpq => ?_
  have h := hpq.1
  rwa [pow_zero, Nat.div_one] at h

/-- With the product of `X` and `Y` they are the base point. -/
theorem stands_basePoint : Ensures (M X Y) fun t => Stands ⟨X, Y, gf1, t⟩ basePoint := by
  have hX := constants_within.2.2.2.2.1
  have hY := constants_within.2.2.2.2.2.1
  have h1 := constants_within.2.1
  refine (M_spec (hX.mono (by norm_num)) (hY.mono (by norm_num))).mono fun t ht => ?_
  refine ⟨hX.mono (by norm_num), hY.mono (by norm_num), h1.mono (by norm_num), ht.1, ?_⟩
  have hmap : (⟨X, Y, gf1, t⟩ : Extended Gf).map val =
      ⟨basePoint.x, basePoint.y, 1, basePoint.x * basePoint.y⟩ := by
    simp only [Extended.map, ht.2, val_gf1]
    rfl
  rw [hmap]
  exact represents_affine basePoint

theorem scalarbase_spec (s : Vector UInt8 32) :
    Ensures (scalarbase s) (Stands · (scalar s • basePoint)) := by
  unfold scalarbase
  refine stands_basePoint.bind fun t hstands => ?_
  exact (scalarmult_spec hstands s).bind fun pq hpq => ensures_pure.mpr hpq

/-! ### Encoding -/

/-- The byte that has the sign. -/
def lastByte : Fin 32 :=
  ⟨31, Nat.lt_succ_self 31⟩

/-- `pack` -/
def pack (p : Extended Gf) : Option (Vector UInt8 32) := do
  let zi ← inv25519 p.Z
  let tx ← M p.X zi
  let ty ← M p.Y zi
  let r ← pack25519 ty
  let b ← par25519 tx
  pure (setAt r lastByte (r.get lastByte ^^^ b <<< 7))

/-- `unpackneg`, with `none` inside for the result -1. -/
def unpackneg (p : Vector UInt8 32) : Option (Option (Extended Gf)) := do
  let y := unpack25519 p
  let num ← S y
  let den ← M num D
  let num ← Z num gf1
  let den ← A gf1 den
  let den2 ← S den
  let den4 ← S den2
  let den6 ← M den4 den2
  let t ← M den6 num
  let t ← M t den
  let t ← pow2523 t
  let t ← M t num
  let t ← M t den
  let t ← M t den
  let x ← M t den
  let chk ← S x
  let chk ← M chk den
  let differ ← neq25519 chk num
  let x ← (if differ ≠ 0 then M x I else pure x)
  let chk ← S x
  let chk ← M chk den
  let differ ← neq25519 chk num
  if differ ≠ 0 then
    pure none
  else
    let b ← par25519 x
    let x ← (if b = p.get lastByte >>> 7 then Z gf0 x else pure x)
    let t ← M x y
    pure (some ⟨x, y, gf1, t⟩)

/-- The encoding of a point: its height, and the parity of the other coordinate in the last bit. -/
def encodePoint (P : Point ed25519) : Vector UInt8 32 :=
  let r := encode P.y
  setAt r lastByte (r.get lastByte ^^^ UInt8.ofNat (P.x.val % 2) <<< 7)

/-- **Packing** gives the encoding of the point, whatever its coordinates. -/
theorem pack_spec {p : Extended Gf} {P : Point ed25519} (h : Stands p P) :
    pack p = some (encodePoint P) := by
  apply Ensures.eq_some
  have hz : val p.Z ≠ 0 := h.represents.z_ne_zero
  unfold pack
  refine (inv25519_spec (h.z_within.mono (by norm_num))).bind fun zi hzi => ?_
  refine (M_spec (h.x_within.mono (by norm_num)) hzi.1).bind fun tx htx => ?_
  refine (M_spec (h.y_within.mono (by norm_num)) hzi.1).bind fun ty hty => ?_
  have hx : val tx = P.x := by
    rw [htx.2, hzi.2, show val p.X = P.x * val p.Z from h.represents.x_eq,
      mul_inv_cancel_right₀ hz]
  have hy : val ty = P.y := by
    rw [hty.2, hzi.2, show val p.Y = P.y * val p.Z from h.represents.y_eq,
      mul_inv_cancel_right₀ hz]
  rw [pack25519_spec hty.1 (by norm_num), par25519_spec htx.1 (by norm_num), hx, hy]
  exact ensures_pure.mpr rfl

/-- **The sum is packed** as the sum of the points, whether they are equal, opposite or neither. -/
theorem pack_add {p q : Extended Gf} {P Q : Point ed25519} (hp : Stands p P) (hq : Stands q Q) :
    (add p q).bind pack = some (encodePoint (P + Q)) := by
  obtain ⟨r, hr, hstands⟩ := add_spec hp hq
  rw [hr, Option.bind_some, pack_spec hstands]

theorem pack_add_basePoint : ∃ t, Stands ⟨X, Y, gf1, t⟩ basePoint ∧
    (add ⟨X, Y, gf1, t⟩ ⟨X, Y, gf1, t⟩).bind pack = some (encodePoint (basePoint + basePoint)) := by
  obtain ⟨t, -, hstands⟩ := stands_basePoint
  exact ⟨t, hstands, pack_add hstands hstands⟩

/-- **The multiple is packed** as the multiple of the point by all 256 bits of the scalar, and the
second result is one point further. -/
theorem pack_scalarmult {q : Extended Gf} {Q : Point ed25519} (hq : Stands q Q)
    (s : Vector UInt8 32) :
    ∃ r, scalarmult q s = some r ∧ pack r.1 = some (encodePoint (scalar s • Q)) ∧
      pack r.2 = some (encodePoint ((scalar s + 1) • Q)) := by
  obtain ⟨r, hr, hladder⟩ := scalarmult_ladder hq s
  unfold Ladder at hladder
  rw [pow_zero, Nat.div_one] at hladder
  exact ⟨r, hr, pack_spec hladder.1, pack_spec hladder.2⟩

theorem pack_scalarmult_basePoint : ∃ t, Stands ⟨X, Y, gf1, t⟩ basePoint ∧
    ∃ r, scalarmult ⟨X, Y, gf1, t⟩ (Vector.replicate 32 255) = some r ∧
      pack r.1 = some (encodePoint (scalar (Vector.replicate 32 255) • basePoint)) ∧
      pack r.2 = some (encodePoint ((scalar (Vector.replicate 32 255) + 1) • basePoint)) := by
  obtain ⟨t, -, hstands⟩ := stands_basePoint
  exact ⟨t, hstands, pack_scalarmult hstands (Vector.replicate 32 255)⟩

/-! ### Decoding -/

/-- The height in an encoding. -/
def height (p : Vector UInt8 32) : Fp :=
  (leValue p % 2 ^ 255 : ℤ)

/-- The sign in an encoding. -/
def signBit (p : Vector UInt8 32) : UInt8 :=
  p.get lastByte >>> 7

/-- What decoding gives: the point of that height whose other coordinate does not have that parity,
or nothing if there is no point of that height. -/
def Decoded (p : Vector UInt8 32) : Option (Extended Gf) → Prop
  | some r => ∃ Q, Stands r Q ∧ Q.y = height p ∧
      (Q.x = 0 ∨ UInt8.ofNat (Q.x.val % 2) ≠ signBit p)
  | none => ∀ P : Point ed25519, P.y ≠ height p

/-- A point of height `y`, by the square of its other coordinate. -/
theorem onCurve_iff (x y : Fp) :
    ed25519.OnCurve x y ↔ x ^ 2 * (1 + y * y * val D) = y * y - 1 := by
  unfold Curve.OnCurve
  show y ^ 2 - x ^ 2 = 1 + val D * x ^ 2 * y ^ 2 ↔ _
  constructor
  · intro h
    linear_combination -h
  · intro h
    linear_combination -h

/-- Opposite elements have opposite parities, as the prime is odd. -/
theorem parity_neg {x : Fp} (hx : x ≠ 0) : (-x).val % 2 ≠ x.val % 2 := by
  have hodd : prime25519 % 2 = 1 := by norm_num [prime25519]
  have hlt := ZMod.val_lt x
  rw [ZMod.neg_val, if_neg hx]
  omega

theorem ofNat_parity_injective {m n : ℕ} (h : UInt8.ofNat (m % 2) = UInt8.ofNat (n % 2)) :
    m % 2 = n % 2 := by
  have hnat := congrArg UInt8.toNat h
  rw [UInt8.toNat_ofNat', UInt8.toNat_ofNat'] at hnat
  omega

/-- The last part of `unpackneg`, on a root that passes the check. -/
theorem unpackneg_sign {p : Vector UInt8 32} {x : Gf} (hx : Within (2 ^ 17) x)
    {P : Point ed25519} (hP : P.x = val x) (hy : P.y = val (unpack25519 p)) :
    Ensures (do
      let b ← par25519 x
      let x ← (if b = p.get lastByte >>> 7 then Z gf0 x else pure x)
      let t ← M x (unpack25519 p)
      pure (some (⟨x, unpack25519 p, gf1, t⟩ : Extended Gf))) (Decoded p) := by
  have hwithin := (unpack25519_spec p).1
  have hgf0 : Within 0 gf0 := by
    unfold Within
    decide +kernel
  have hheight : val (unpack25519 p) = height p := by
    rw [val, (unpack25519_spec p).2, height]
  -- the point with the coordinate that is left
  have hlast : ∀ (x' : Gf) (Q : Point ed25519), Within (2 ^ 17) x' → Q.x = val x' →
      Q.y = val (unpack25519 p) → (Q.x = 0 ∨ UInt8.ofNat (Q.x.val % 2) ≠ signBit p) →
        Ensures (M x' (unpack25519 p) >>= fun t =>
          pure (some (⟨x', unpack25519 p, gf1, t⟩ : Extended Gf))) (Decoded p) := by
    intro x' Q hx' hQx hQy hsign
    refine (M_spec (hx'.mono (by norm_num)) (hwithin.mono (by norm_num))).bind fun t ht => ?_
    refine ensures_pure.mpr ⟨Q, ⟨hx', hwithin.mono (by norm_num),
      constants_within.2.1.mono (by norm_num), ht.1, ?_⟩, hQy.trans hheight, hsign⟩
    have hmap : (⟨x', unpack25519 p, gf1, t⟩ : Extended Gf).map val = ⟨Q.x, Q.y, 1, Q.x * Q.y⟩ := by
      simp only [Extended.map, ht.2, val_gf1, hQx, hQy]
    rw [hmap]
    exact represents_affine Q
  rw [par25519_spec hx (by norm_num)]
  show Ensures ((if UInt8.ofNat ((val x).val % 2) = signBit p then Z gf0 x else pure x) >>= _) _
  split
  · next heq =>
    refine (Z_spec hgf0 hx (by norm_num)).bind fun x' hx' => ?_
    have hneg : val x' = -val x := by
      rw [hx'.2, val_gf0, zero_sub]
    refine hlast x' (-P) (hx'.1.mono (by norm_num)) (by rw [Point.neg_x, hP, hneg]) hy ?_
    rw [Point.neg_x, hP]
    by_cases h0 : val x = 0
    · left
      rw [h0, neg_zero]
    · right
      intro hsame
      exact parity_neg h0 (ofNat_parity_injective (hsame.trans heq.symm))
  · next hne =>
    refine hlast x P hx hP hy (Or.inr ?_)
    rwa [hP]

/-- **Decoding** finds the point of the height that is given, if there is one, with the other
parity, and fails if there is none. -/
theorem unpackneg_spec (p : Vector UInt8 32) : Ensures (unpackneg p) (Decoded p) := by
  have hy := (unpack25519_spec p).1
  have hD := constants_within.2.2.1
  have hI := constants_within.2.2.2.2.2.2
  have hgf1 := constants_within.2.1
  have hheight : val (unpack25519 p) = height p := by
    rw [val, (unpack25519_spec p).2, height]
  unfold unpackneg
  refine (M_spec (hy.mono (by norm_num)) (hy.mono (by norm_num))).bind fun num₀ hnum₀ => ?_
  refine (M_spec (hnum₀.1.mono (by norm_num)) (hD.mono (by norm_num))).bind fun den₀ hden₀ => ?_
  refine (Z_spec hnum₀.1 hgf1 (by norm_num)).bind fun num hnum => ?_
  refine (A_spec hgf1 hden₀.1 (by norm_num)).bind fun den hden => ?_
  have hnum' : Within (2 ^ 26) num := hnum.1.mono (by norm_num)
  have hden' : Within (2 ^ 26) den := hden.1.mono (by norm_num)
  refine (M_spec hden' hden').bind fun den2 hden2 => ?_
  refine (M_spec (hden2.1.mono (by norm_num)) (hden2.1.mono (by norm_num))).bind
    fun den4 hden4 => ?_
  refine (M_spec (hden4.1.mono (by norm_num)) (hden2.1.mono (by norm_num))).bind
    fun den6 hden6 => ?_
  refine (M_spec (hden6.1.mono (by norm_num)) hnum').bind fun t₁ ht₁ => ?_
  refine (M_spec (ht₁.1.mono (by norm_num)) hden').bind fun t₂ ht₂ => ?_
  refine (pow2523_spec (ht₂.1.mono (by norm_num))).bind fun t₃ ht₃ => ?_
  refine (M_spec ht₃.1 hnum').bind fun t₄ ht₄ => ?_
  refine (M_spec (ht₄.1.mono (by norm_num)) hden').bind fun t₅ ht₅ => ?_
  refine (M_spec (ht₅.1.mono (by norm_num)) hden').bind fun t₆ ht₆ => ?_
  refine (M_spec (ht₆.1.mono (by norm_num)) hden').bind fun x hx => ?_
  refine (M_spec (hx.1.mono (by norm_num)) (hx.1.mono (by norm_num))).bind fun x₂ hx₂ => ?_
  refine (M_spec (hx₂.1.mono (by norm_num)) hden').bind fun chk hchk => ?_
  -- the two sides of the equation of the curve, and the candidate for a root
  obtain ⟨y, hyval⟩ : ∃ y, val (unpack25519 p) = y := ⟨_, rfl⟩
  obtain ⟨u, hu⟩ : ∃ u, val num = u := ⟨_, rfl⟩
  obtain ⟨v, hv⟩ : ∃ v, val den = v := ⟨_, rfl⟩
  have hu' : u = y * y - 1 := by
    rw [← hu, hnum.2, hnum₀.2, val_gf1, hyval]
  have hv' : v = 1 + y * y * val D := by
    rw [← hv, hden.2, hden₀.2, hnum₀.2, val_gf1, hyval]
  have hv0 : v ≠ 0 := by
    have h := Curve.one_add_mul_sq_ne_zero ed25519 y
    rw [hv', show y * y * val D = ed25519.d * y ^ 2 by rw [sq, mul_comm]; rfl]
    exact h
  have hroot : val x = u * v ^ 3 * (u * v ^ 7) ^ ((prime25519 - 5) / 8) := by
    have hbase : val t₂ = u * v ^ 7 := by
      rw [ht₂.2, ht₁.2, hden6.2, hden4.2, hden2.2, hu, hv]
      ring
    rw [hx.2, ht₆.2, ht₅.2, ht₄.2, ht₃.2, hbase, hu, hv]
    ring
  have hcurve : ∀ w : Fp, w ^ 2 * v = u ↔ ed25519.OnCurve w y := fun w => by
    rw [onCurve_iff, hu', hv']
  rw [neq25519_spec hchk.1 (by norm_num) hnum.1 (by norm_num)]
  -- after the first check
  have hsecond : Ensures
      (if (if val chk = val num then (0 : ℤ) else -1) ≠ 0 then M x I else pure x) fun x' =>
        Within (2 ^ 17) x' ∧ ((∃ w, w ^ 2 * v = u) → val x' ^ 2 * v = u) := by
    have hchk' : val chk = val x ^ 2 * v := by
      rw [hchk.2, hx₂.2, hv, sq]
    by_cases hfirst : val chk = val num
    · rw [if_pos hfirst, if_neg (by simp)]
      refine ensures_pure.mpr ⟨hx.1, fun _ => ?_⟩
      rw [← hchk', hfirst, hu]
    · rw [if_neg hfirst, if_pos (by simp)]
      refine (M_spec (hx.1.mono (by norm_num)) (hI.mono (by norm_num))).mono
        fun x' hx' => ⟨hx'.1, ?_⟩
      rintro ⟨w, hw⟩
      rcases LucasTest.ratio_root (by norm_num [prime25519]) hv0 hw with h | h
      · rw [← hroot, ← hchk', ← hu] at h
        exact absurd h hfirst
      · rw [← hroot] at h
        rw [hx'.2]
        linear_combination val I * val I * h - u * val_I_mul_self
  refine hsecond.bind fun x' hx' => ?_
  refine (M_spec (hx'.1.mono (by norm_num)) (hx'.1.mono (by norm_num))).bind fun x₂' hx₂' => ?_
  refine (M_spec (hx₂'.1.mono (by norm_num)) hden').bind fun chk' hchk' => ?_
  have hval : val chk' = val x' ^ 2 * v := by
    rw [hchk'.2, hx₂'.2, hv, sq]
  rw [neq25519_spec hchk'.1 (by norm_num) hnum.1 (by norm_num)]
  by_cases hpass : val chk' = val num
  · rw [hval, hu, hcurve] at hpass
    have hpoint := unpackneg_sign (p := p) hx'.1 (P := ⟨val x', y, hpass⟩) rfl hyval.symm
    rw [← hcurve, ← hval, ← hu] at hpass
    show Ensures (if (if val chk' = val num then (0 : ℤ) else -1) ≠ 0 then _ else _) _
    rw [if_pos hpass, if_neg (by simp)]
    exact hpoint
  · show Ensures (if (if val chk' = val num then (0 : ℤ) else -1) ≠ 0 then _ else _) _
    rw [if_neg hpass, if_pos (by simp)]
    refine ensures_pure.mpr fun P hP => hpass ?_
    rw [hval, hu]
    refine hx'.2 ⟨P.x, (hcurve P.x).mpr ?_⟩
    rw [← hyval, hheight, ← hP]
    exact P.on_curve

/-! ### Decoding what was encoded -/

theorem leValue_set {n : ℕ} (v : Vector UInt8 n) (i : Fin n) (b : UInt8) :
    leValue (setAt v i b) = leValue v + (b.toNat - (v.get i).toNat) * 256 ^ i.val := by
  have hget : (fun j => (((setAt v i b).get j).toNat : ℤ)) =
      Function.update (fun j => ((v.get j).toNat : ℤ)) i b.toNat := by
    funext j
    rw [get_setAt, Function.update_apply]
    split <;> rfl
  unfold leValue
  rw [hget, value_update]

/-- The sign goes into a bit that is free. -/
theorem toNat_xor_sign : ∀ (b : Fin 128) (q : Fin 2),
    (UInt8.ofNat b ^^^ UInt8.ofNat q <<< 7).toNat = b.val + 128 * q.val ∧
      (UInt8.ofNat b ^^^ UInt8.ofNat q <<< 7) >>> 7 = UInt8.ofNat q := by
  decide +kernel

/-- The last byte of an element has its highest bit free. -/
theorem lastByte_encode (y : Fp) : ∃ b : Fin 128, (encode y).get lastByte = UInt8.ofNat b := by
  have hlt : (y.val : ℤ) < 2 ^ 255 - 19 := by
    rw [← prime25519_eq]
    exact_mod_cast ZMod.val_lt y
  have hbyte := toNat_get_eq_digit (encode y) lastByte
  have hsmall : ((encode y).get lastByte).toNat < 128 := by
    rw [leValue_encode, digit, show lastByte.val = 31 from rfl] at hbyte
    have hdiv : (y.val : ℤ) / 256 ^ 31 < 128 := Int.ediv_lt_of_lt_mul (by norm_num) (by linarith)
    have hdiv' : 0 ≤ (y.val : ℤ) / 256 ^ 31 :=
      Int.ediv_nonneg (Int.natCast_nonneg y.val) (by norm_num)
    rw [Int.emod_eq_of_lt hdiv' (by linarith)] at hbyte
    exact_mod_cast hbyte.trans_lt hdiv
  generalize (encode y).get lastByte = b at hsmall
  exact ⟨⟨b.toNat, hsmall⟩, UInt8.ofNat_toNat.symm⟩

theorem height_encodePoint (P : Point ed25519) : height (encodePoint P) = P.y := by
  obtain ⟨b, hb⟩ := lastByte_encode P.y
  have hsign := (toNat_xor_sign b ⟨P.x.val % 2, Nat.mod_lt _ (by norm_num)⟩).1
  have hb' : ((encode P.y).get lastByte).toNat = b.val := by
    rw [hb, UInt8.toNat_ofNat']
    omega
  have hlt : (P.y.val : ℤ) < 2 ^ 255 - 19 := by
    rw [← prime25519_eq]
    exact_mod_cast ZMod.val_lt P.y
  have hvalue : leValue (encodePoint P) = P.y.val + (P.x.val % 2 : ℕ) * 2 ^ 255 := by
    unfold encodePoint
    rw [leValue_set, hb', hb, hsign, leValue_encode, show lastByte.val = 31 from rfl]
    push_cast
    ring
  have hmod : leValue (encodePoint P) % 2 ^ 255 = P.y.val := by
    rw [hvalue, Int.add_mul_emod_self_right]
    exact Int.emod_eq_of_lt (Int.natCast_nonneg _) (lt_trans hlt (by norm_num))
  rw [height, hmod, Int.cast_natCast, ZMod.natCast_zmod_val]

theorem signBit_encodePoint (P : Point ed25519) :
    signBit (encodePoint P) = UInt8.ofNat (P.x.val % 2) := by
  obtain ⟨b, hb⟩ := lastByte_encode P.y
  unfold signBit encodePoint
  rw [get_setAt, if_pos rfl, hb]
  exact (toNat_xor_sign b ⟨P.x.val % 2, Nat.mod_lt _ (by norm_num)⟩).2

/-- **Decoding gives the opposite** of the point that was encoded. -/
theorem unpackneg_encodePoint (P : Point ed25519) :
    Ensures (unpackneg (encodePoint P)) fun r => ∃ q, r = some q ∧ Stands q (-P) := by
  refine (unpackneg_spec (encodePoint P)).mono fun r hr => ?_
  cases r with
  | none => exact absurd (height_encodePoint P).symm (hr P)
  | some q =>
    obtain ⟨Q, hQ, hheight, hsign⟩ := hr
    rw [height_encodePoint] at hheight
    rw [signBit_encodePoint] at hsign
    refine ⟨q, rfl, ?_⟩
    rcases Point.eq_or_eq_neg_of_y_eq hheight with rfl | rfl
    · -- the same point, which is then its own opposite
      have hx : Q.x = 0 := hsign.resolve_right (not_not.mpr rfl)
      have hself : -Q = Q := Point.ext (by rw [Point.neg_x, hx, neg_zero]) rfl
      rwa [hself]
    · exact hQ

/-- **Decoding and encoding**: every point's encoding is decoded, and what is decoded is encoded as
the opposite point. -/
theorem pack_unpackneg (P : Point ed25519) :
    ∃ q, unpackneg (encodePoint P) = some (some q) ∧ pack q = some (encodePoint (-P)) := by
  obtain ⟨r, hr, q, rfl, hq⟩ := unpackneg_encodePoint P
  exact ⟨q, hr, pack_spec hq⟩

/-- **An encoding is of one point.** -/
theorem encodePoint_injective : Function.Injective encodePoint := by
  intro P Q h
  obtain ⟨r, hr, p, rfl, hp⟩ := unpackneg_encodePoint P
  obtain ⟨r', hr', q, rfl, hq⟩ := unpackneg_encodePoint Q
  rw [h, hr'] at hr
  obtain rfl : q = p := Option.some.inj (Option.some.inj hr)
  exact neg_injective (hp.represents.unique hq.represents)

end MithAtomas.TweetNacl
