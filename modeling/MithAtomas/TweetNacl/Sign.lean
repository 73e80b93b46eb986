import MithAtomas.Framework.SchnorrSignature
import MithAtomas.TweetNacl.Hash
import MithAtomas.TweetNacl.Points
import MithAtomas.TweetNacl.Scalars

/-!
# Signing and opening

`crypto_sign_keypair`, `crypto_sign` and `crypto_sign_open` of `third_party/tweetnacl/tweetnacl.c`.
What `randombytes` gives is an argument. `none` is undefined behaviour: the counter of
`crypto_sign_open` is an `int`, and does not count to the end of a message of 2^31 bytes.

`cryptoSign_spec` and `cryptoSignOpen_spec` are what the functions do in the group of the curve, and
`cryptoSignOpen_cryptoSign` is that what was signed is opened.
-/

namespace MithAtomas.TweetNacl

open CheckedLoop RadixNumber EdwardsCurve SchnorrSignature VectorLoop

/-- The bytes at byte `p`, for a function that gets a pointer to them. -/
def bytesAt {n : ℕ} (l : List UInt8) (p : ℕ) : Option (Vector UInt8 n) :=
  forUp n (fun i v => (l[p + i.val]?).map fun b => setAt v i b) (Vector.replicate n 0)

/-- `d[0] &= 248; d[31] &= 127; d[31] |= 64` -/
def clamp (d : Vector UInt8 64) : Vector UInt8 64 :=
  let d := setAt d 0 (d.get 0 &&& 248)
  let d := setAt d 31 (d.get 31 &&& 127)
  setAt d 31 (d.get 31 ||| 64)

/-- `d`, of the 32 bytes that `sk` starts with. -/
def expandSecret (sk : List UInt8) : Option (Vector UInt8 64) := do
  let d ← cryptoHash sk 32
  pure (clamp d)

/-- 64 bytes from two halves: the secret key has the public one behind the seed. -/
def joined (v w : Vector UInt8 32) : Vector UInt8 64 :=
  v ++ w

/-- `crypto_sign_keypair`: the public key and the secret one. -/
def cryptoSignKeypair (seed : Vector UInt8 32) : Option (Vector UInt8 32 × Vector UInt8 64) := do
  let d ← expandSecret seed.toList
  let s ← bytesAt d.toList 0
  let p ← scalarbase s
  let pk ← pack p
  pure (pk, joined seed pk)

/-- `i+j` -/
def sumIndex (i j : Fin 32) : Fin 64 :=
  ⟨i.val + j.val, by omega⟩

/-- The body of the loops that multiply `h` and `d`. -/
def multiplyAdd (h s : Vector UInt8 32) (i j : Fin 32) (x : Vector ℤ 64) : Option (Vector ℤ 64) :=
  let l := sumIndex i j
  pure (setAt x l (wrap64 (x.get l + (h.get i).toNat * (s.get j).toNat)))

/-- `crypto_sign`: the signed message. -/
def cryptoSign (m : List UInt8) (sk : Vector UInt8 64) : Option (List UInt8) := do
  let d ← expandSecret sk.toList
  let n := m.length
  let nonce ← cryptoHash (d.toList.drop 32 ++ m) (n + 32)
  let r ← reduce nonce
  let p ← scalarbase r
  let t ← pack p
  let challenge ← cryptoHash (t.toList ++ (sk.toList.drop 32 ++ m)) (n + 64)
  let h ← reduce challenge
  let s ← bytesAt d.toList 0
  let x : Vector ℤ 64 := Vector.ofFn fun i =>
    if hi : i.val < 32 then ((r.get ⟨i, hi⟩).toNat : ℤ) else 0
  let x ← forUp 32 (fun i => forUp 32 (multiplyAdd h s i)) x
  let s ← modL x
  pure (t.toList ++ (s.toList ++ m))

/-- What `crypto_sign_open` compares with the signature, for the decoded key `q`. -/
def openedCommitment (q : Extended Gf) (h s : Vector UInt8 32) : Option (Vector UInt8 32) := do
  let (p, _) ← scalarmult q h
  let q ← scalarbase s
  let p ← add p q
  pack p

/-- `crypto_sign_open`: the message, unless it returns -1. -/
def cryptoSignOpen (sm : List UInt8) (pk : Vector UInt8 32) : Option (Option (List UInt8)) := do
  let n := sm.length
  if n < 64 then pure none
  else do
    let q ← unpackneg pk
    match q with
    | none => pure none
    | some q => do
      guard (n < 2 ^ 31)
      let challenge ← cryptoHash (sm.take 32 ++ (pk.toList ++ sm.drop 64)) n
      let h ← reduce challenge
      let s ← bytesAt sm 32
      let t ← openedCommitment q h s
      let r ← bytesAt sm 0
      if cryptoVerify32 r t ≠ 0 then pure none
      else pure (some (sm.drop 64))

/-! ### Bytes -/

/-- The first 32 bytes. -/
def firstHalf (v : Vector UInt8 64) : Vector UInt8 32 :=
  ⟨(v.toList.take 32).toArray, by simp⟩

/-- The last 32 bytes. -/
def lastHalf (v : Vector UInt8 64) : Vector UInt8 32 :=
  ⟨(v.toList.drop 32).toArray, by simp⟩

@[simp] theorem toList_firstHalf (v : Vector UInt8 64) :
    (firstHalf v).toList = v.toList.take 32 := rfl

@[simp] theorem toList_lastHalf (v : Vector UInt8 64) :
    (lastHalf v).toList = v.toList.drop 32 := rfl

@[simp] theorem toList_joined (v w : Vector UInt8 32) :
    (joined v w).toList = v.toList ++ w.toList :=
  Vector.toList_append

@[simp] theorem firstHalf_joined (v w : Vector UInt8 32) : firstHalf (joined v w) = v := by
  apply Vector.toList_inj.mp
  rw [toList_firstHalf, toList_joined, List.take_left' v.length_toList]

@[simp] theorem lastHalf_joined (v w : Vector UInt8 32) : lastHalf (joined v w) = w := by
  apply Vector.toList_inj.mp
  rw [toList_lastHalf, toList_joined, List.drop_left' v.length_toList]

theorem toList_halves (v : Vector UInt8 64) :
    v.toList = (firstHalf v).toList ++ (lastHalf v).toList := by
  rw [toList_firstHalf, toList_lastHalf, List.take_append_drop]

theorem bytesAt_eq {n : ℕ} {l front back : List UInt8} {v : Vector UInt8 n}
    (h : l = front ++ (v.toList ++ back)) : bytesAt l front.length = some v := by
  have hfill : Ensures (bytesAt l front.length) fun w : Vector UInt8 n =>
      ∀ i, w.get i = v.get i := by
    refine ensures_fill (P := fun i b => b = v.get i) (fun i => ⟨v.get i, ?_, rfl⟩) _
    rw [h, List.getElem?_append_right (Nat.le_add_right _ _), Nat.add_sub_cancel_left,
      List.getElem?_append_left (by simp), List.getElem?_eq_getElem (by simp),
      Vector.getElem_toList]
    rfl
  obtain ⟨w, hw, hget⟩ := hfill
  rw [hw]
  exact congrArg some (Vector.ext fun i hi => hget ⟨i, hi⟩)

theorem bytesAt_zero {n : ℕ} {l back : List UInt8} {v : Vector UInt8 n}
    (h : l = v.toList ++ back) : bytesAt l 0 = some v :=
  bytesAt_eq (h.trans (List.nil_append _).symm)

/-! ### Hashes and scalars -/

/-- SHA-512. -/
noncomputable def digest (m : List UInt8) : Vector UInt8 64 :=
  ⟨(Sha512.hash m).toArray, by simp⟩

/-- SHA-512 as a number modulo the order. -/
noncomputable def digestScalar (m : List UInt8) : ℕ :=
  (leValue (digest m) % order25519).toNat

/-- `d`, in terms of the standard. -/
noncomputable def expanded (sk : List UInt8) : Vector UInt8 64 :=
  clamp (digest (sk.take 32))

/-- The secret number. -/
noncomputable def secret (sk : List UInt8) : ℕ :=
  scalar (firstHalf (expanded sk))

/-- `h` -/
noncomputable def challenge (t pk : Vector UInt8 32) (m : List UInt8) : ℕ :=
  digestScalar (t.toList ++ (pk.toList ++ m))

/-- The last bytes of `d`, which only the hash sees. -/
noncomputable def nonce (sk m : List UInt8) : ℕ :=
  digestScalar ((lastHalf (expanded sk)).toList ++ m)

/-- A number as 32 bytes. -/
def scalarBytes (n : ℕ) : Vector UInt8 32 :=
  Vector.ofFn fun i => UInt8.ofInt (digit 256 n i)

/-- The first half of a signature. -/
noncomputable def commitment (sk : Vector UInt8 64) (m : List UInt8) : Vector UInt8 32 :=
  encodePoint (nonce sk.toList m • basePoint)

/-- The second half, as a number. -/
noncomputable def response (sk : Vector UInt8 64) (m : List UInt8) : ℕ :=
  (nonce sk.toList m + challenge (commitment sk m) (lastHalf sk) m * secret sk.toList) % order25519

/-- **The signature** of a message. -/
noncomputable def signature (sk : Vector UInt8 64) (m : List UInt8) : Vector UInt8 64 :=
  joined (commitment sk m) (scalarBytes (response sk m))

theorem cryptoHash_eq {m : List UInt8} {n : ℕ} (h : n ≤ m.length) (hn : n < 2 ^ 64) :
    cryptoHash m n = some (digest (m.take n)) := by
  obtain ⟨d, hd, hbytes⟩ := cryptoHash_spec h hn
  rw [hd]
  exact congrArg some (Vector.toList_inj.mp hbytes)

theorem expandSecret_eq {sk : List UInt8} (h : 32 ≤ sk.length) :
    expandSecret sk = some (expanded sk) := by
  unfold expandSecret
  rw [cryptoHash_eq h (by norm_num)]
  rfl

theorem cast_scalar (s : Vector UInt8 32) : ((scalar s : ℕ) : ℤ) = leValue s :=
  Int.toNat_of_nonneg (leValue_nonneg s)

theorem leValue_scalarBytes {n : ℕ} (h : n < 2 ^ 256) : leValue (scalarBytes n) = n := by
  have hget : ∀ i : Fin 32, (((scalarBytes n).get i).toNat : ℤ) = digit 256 n i := by
    intro i
    have hofFn : (scalarBytes n).get i = UInt8.ofInt (digit 256 n i) := Vector.getElem_ofFn i.isLt
    rw [hofFn, toNat_ofInt, Int.emod_eq_of_lt (digit_nonneg (by norm_num) _ _)
      (digit_lt (by norm_num) _ _)]
  unfold leValue
  rw [funext hget, value_digit (by norm_num), Int.emod_eq_of_lt (Int.natCast_nonneg n)]
  exact_mod_cast h

theorem scalar_scalarBytes {n : ℕ} (h : n < 2 ^ 256) : scalar (scalarBytes n) = n := by
  rw [scalar, leValue_scalarBytes h, Int.toNat_natCast]

theorem response_lt (sk : Vector UInt8 64) (m : List UInt8) : response sk m < 2 ^ 256 := by
  have hlt : response sk m < order25519 := Nat.mod_lt _ (by norm_num [order25519])
  exact hlt.trans (by norm_num [order25519])

theorem reduce_digest (m : List UInt8) :
    Ensures (reduce (digest m)) fun s => scalar s = digestScalar m := by
  refine (reduce_spec (digest m)).mono fun s hs => ?_
  rw [scalar, hs, digestScalar]

/-! ### The response -/

/-- What holds before product `i`, `k`: the limbs before the row were `x`. -/
structure RowDone (h s : Vector UInt8 32) (x : Vector ℤ 64) (i : Fin 32) (k : ℕ) (y : Vector ℤ 64) :
    Prop where
  value_eq : value 256 y.get = value 256 x.get +
    (h.get i).toNat * 256 ^ i.val * value 256 (truncate k fun j => ((s.get j).toNat : ℤ))
  bounds : ∀ l : Fin 64, 0 ≤ y.get l ∧
    y.get l ≤ 255 + 65025 * (i.val + if l.val < i.val + k then 1 else 0)

theorem RowDone.round {h s : Vector UInt8 32} {x y : Vector ℤ 64} {i k : Fin 32}
    (hy : RowDone h s x i k y) : Ensures (multiplyAdd h s i k y) (RowDone h s x i (k + 1)) := by
  obtain ⟨l, hl⟩ : ∃ l, sumIndex i k = l := ⟨_, rfl⟩
  have hl' : l.val = i.val + k.val := hl ▸ rfl
  have hhere := hy.bounds l
  rw [if_neg (by omega)] at hhere
  have hi := i.isLt
  have hh := byte_bounds (h.get i)
  have hs := byte_bounds (s.get k)
  obtain ⟨a, ha⟩ : ∃ a : ℤ, ((h.get i).toNat : ℤ) = a := ⟨_, rfl⟩
  obtain ⟨b, hb⟩ : ∃ b : ℤ, ((s.get k).toNat : ℤ) = b := ⟨_, rfl⟩
  rw [ha] at hh
  rw [hb] at hs
  -- a limb gets one product in each row, so that 32 of them fit
  have hproduct : 0 ≤ a * b ∧ a * b ≤ 65025 := by
    refine ⟨mul_nonneg hh.1 hs.1, ?_⟩
    calc a * b ≤ 255 * 255 := mul_le_mul (by omega) (by omega) hs.1 (by norm_num)
      _ = 65025 := by norm_num
  have hvalue := hy.value_eq
  unfold multiplyAdd
  simp only [hl, ha, hb]
  rw [wrap64_eq (by rw [abs_lt]; omega)]
  rw [ha] at hvalue
  refine ensures_pure.mpr ⟨?_, fun m => ?_⟩
  · rw [get_set_eq_update, value_update, hvalue, ha,
      value_truncate_succ (B := 256) (fun j => ((s.get j).toNat : ℤ)) k, hb, hl', pow_add]
    ring
  · have hm := hy.bounds m
    rw [get_setAt]
    split
    · next heq =>
      rw [heq, if_pos (by omega)]
      omega
    · next hne =>
      have hval : m.val ≠ l.val := fun h => hne (Fin.ext h)
      refine ⟨hm.1, hm.2.trans ?_⟩
      split <;> split <;> omega

/-- **The products** of all pairs of bytes. -/
theorem multiplyAdd_spec (h s : Vector UInt8 32) {x : Vector ℤ 64}
    (hx : ∀ l, 0 ≤ x.get l ∧ x.get l ≤ 255) :
    Ensures (forUp 32 (fun i => forUp 32 (multiplyAdd h s i)) x) fun y =>
      value 256 y.get = value 256 x.get + leValue h * leValue s ∧ ∀ l, |y.get l| ≤ 2 ^ 22 := by
  refine (ensures_forUp (fun i (y : Vector ℤ 64) => value 256 y.get = value 256 x.get +
    value 256 (truncate i fun j => ((h.get j).toNat : ℤ)) * leValue s ∧
      ∀ l, 0 ≤ y.get l ∧ y.get l ≤ 255 + 65025 * i) ?_ ?_).mono ?_
  · refine ⟨?_, fun l => ?_⟩
    · rw [value_truncate_zero, zero_mul, add_zero]
    · simpa using hx l
  · rintro i y ⟨hvalue, hbounds⟩
    have hstart : RowDone h s y i 0 y := by
      refine ⟨?_, fun l => ⟨(hbounds l).1, (hbounds l).2.trans ?_⟩⟩
      · rw [value_truncate_zero, mul_zero, add_zero]
      · split <;> omega
    refine (ensures_forUp (RowDone h s y i) hstart fun k z hz => hz.round).mono fun z hz => ?_
    refine ⟨?_, fun l => ⟨(hz.bounds l).1, (hz.bounds l).2.trans ?_⟩⟩
    · rw [hz.value_eq, hvalue, truncate_all,
        value_truncate_succ (B := 256) (fun j => ((h.get j).toNat : ℤ)) i]
      unfold leValue
      ring
    · push_cast
      split <;> omega
  · rintro y ⟨hvalue, hbounds⟩
    rw [truncate_all] at hvalue
    refine ⟨hvalue, fun l => ?_⟩
    have hl := hbounds l
    rw [abs_le]
    omega

/-! ### Keys -/

/-- The bytes are an encoding of the point, not necessarily the one that `pack` gives: the height
may be too large by the prime, and a point with no `x` may have a sign. -/
def IsKey (pk : Vector UInt8 32) (A : Point ed25519) : Prop :=
  A.y = height pk ∧ (A.x = 0 ∨ UInt8.ofNat (A.x.val % 2) = signBit pk)

theorem isKey_encodePoint (A : Point ed25519) : IsKey (encodePoint A) A :=
  ⟨(height_encodePoint A).symm, Or.inr (signBit_encodePoint A).symm⟩

theorem IsKey.unique {pk : Vector UInt8 32} {A B : Point ed25519} (hA : IsKey pk A)
    (hB : IsKey pk B) : A = B := by
  rcases Point.eq_or_eq_neg_of_y_eq (hA.1.trans hB.1.symm) with h | h
  · exact h
  · -- two opposite points of one parity have no `x`
    by_cases hx : B.x = 0
    · rw [h]
      exact Point.ext (by rw [Point.neg_x, hx, neg_zero]) rfl
    · have hAx : A.x = -B.x := by rw [h, Point.neg_x]
      have hsignA := hA.2.resolve_left (by rw [hAx]; exact neg_ne_zero.mpr hx)
      have hsignB := hB.2.resolve_left hx
      rw [← hsignB, hAx] at hsignA
      exact absurd (ofNat_parity_injective hsignA) (parity_neg hx)

theorem toNat_signBit (pk : Vector UInt8 32) : (signBit pk).toNat < 2 := by
  have hlt := (pk.get lastByte).toNat_lt
  unfold signBit
  rw [UInt8.toNat_shiftRight, Nat.shiftRight_eq_div_pow]
  show (pk.get lastByte).toNat / 2 ^ 7 < 2
  omega

/-- What is decoded is the opposite of the key. -/
theorem isKey_neg {pk : Vector UInt8 32} {Q : Point ed25519} (hy : Q.y = height pk)
    (hx : Q.x = 0 ∨ UInt8.ofNat (Q.x.val % 2) ≠ signBit pk) : IsKey pk (-Q) := by
  refine ⟨hy, ?_⟩
  by_cases hzero : Q.x = 0
  · left
    rw [Point.neg_x, hzero, neg_zero]
  · right
    have hsign := hx.resolve_left hzero
    have hparity := parity_neg hzero
    have hlt := toNat_signBit pk
    rw [Point.neg_x]
    apply UInt8.toNat_inj.mp
    rw [Ne, ← UInt8.toNat_inj, UInt8.toNat_ofNat'] at hsign
    rw [UInt8.toNat_ofNat']
    omega

/-- **A public key is decoded** just when it is an encoding of a point, canonical or not, and then
as the opposite of the one point that it encodes. -/
theorem unpackneg_isKey (pk : Vector UInt8 32) :
    ∃ r, unpackneg pk = some r ∧
      (r = none ↔ ∀ A, ¬ IsKey pk A) ∧
      ∀ q, r = some q → (∃! A, IsKey pk A) ∧ ∀ A, IsKey pk A → Stands q (-A) := by
  obtain ⟨r, hr, hdecoded⟩ := unpackneg_spec pk
  refine ⟨r, hr, ?_⟩
  cases r with
  | none => exact ⟨iff_of_true rfl fun A hA => hdecoded A hA.1, nofun⟩
  | some q =>
    obtain ⟨Q, hQ, hy, hx⟩ := hdecoded
    have hkey := isKey_neg hy hx
    refine ⟨iff_of_false nofun fun h => h _ hkey, ?_⟩
    rintro _ ⟨⟩
    refine ⟨⟨-Q, hkey, fun A hA => hA.unique hkey⟩, fun A hA => ?_⟩
    rw [hA.unique hkey, neg_neg]
    exact hQ

/-- **The equation** that opening checks. -/
def Verifies (pk t s : Vector UInt8 32) (m : List UInt8) : Prop :=
  ∃ A T : Point ed25519, IsKey pk A ∧ encodePoint T = t ∧
    Accepts basePoint A T (challenge t pk m) (scalar s)

/-! ### Opening -/

theorem exists_parts {sm : List UInt8} (h : 64 ≤ sm.length) :
    ∃ t s : Vector UInt8 32, sm = t.toList ++ (s.toList ++ sm.drop 64) := by
  refine ⟨⟨(sm.take 32).toArray, by simp; omega⟩,
    ⟨((sm.drop 32).take 32).toArray, by simp; omega⟩, ?_⟩
  show sm = sm.take 32 ++ ((sm.drop 32).take 32 ++ sm.drop 64)
  have hdrop : sm.drop 64 = (sm.drop 32).drop 32 := by
    rw [List.drop_drop]
  rw [hdrop, List.take_append_drop, List.take_append_drop]

theorem openedCommitment_eq {q : Extended Gf} {Q : Point ed25519} (hq : Stands q Q)
    (h s : Vector UInt8 32) : openedCommitment q h s =
      some (encodePoint (scalar h • Q + scalar s • basePoint)) := by
  apply Ensures.eq_some
  unfold openedCommitment
  refine (scalarmult_spec hq h).bind ?_
  rintro ⟨p, q'⟩ hp
  refine (scalarbase_spec s).bind fun b hb => ?_
  refine (add_spec hp hb).bind fun sum hsum => ?_
  rw [pack_spec hsum]
  exact ensures_some.mpr rfl

theorem cryptoVerify32_ne_zero_iff (x y : Vector UInt8 32) : cryptoVerify32 x y ≠ 0 ↔ x ≠ y := by
  rw [cryptoVerify32, vn_eq]
  split <;> simp [*]

/-- **Opening** checks the equation, and gives what stands behind the signature. Whatever the bytes,
it is defined. -/
theorem cryptoSignOpen_spec {sm : List UInt8} (h : sm.length < 2 ^ 31) (pk : Vector UInt8 32) :
    Ensures (cryptoSignOpen sm pk) fun r => ∀ m, r = some m ↔
      ∃ t s : Vector UInt8 32, sm = t.toList ++ (s.toList ++ m) ∧ Verifies pk t s m := by
  unfold cryptoSignOpen
  simp only
  split
  · next hshort =>
    refine ensures_pure.mpr fun m => ⟨nofun, ?_⟩
    rintro ⟨t, s, hsm, -⟩
    rw [hsm] at hshort
    simp at hshort
    omega
  next hlong =>
  obtain ⟨t, s, hsm⟩ := exists_parts (not_lt.mp hlong)
  obtain ⟨m, hm⟩ : ∃ m, sm.drop 64 = m := ⟨_, rfl⟩
  rw [hm] at hsm ⊢
  have hlength : sm.length = 64 + m.length := by
    rw [hsm, List.length_append, List.length_append, Vector.length_toList, Vector.length_toList]
    omega
  -- the parts are determined
  have hparts : ∀ m', (∃ t' s' : Vector UInt8 32, sm = t'.toList ++ (s'.toList ++ m') ∧
      Verifies pk t' s' m') ↔ m = m' ∧ Verifies pk t s m := by
    intro m'
    constructor
    · rintro ⟨t', s', hsm', hverifies⟩
      rw [hsm] at hsm'
      obtain ⟨ht, hrest⟩ := List.append_inj hsm' (by simp)
      obtain ⟨hs, rfl⟩ := List.append_inj hrest (by simp)
      obtain rfl := Vector.toList_inj.mp ht
      obtain rfl := Vector.toList_inj.mp hs
      exact ⟨rfl, hverifies⟩
    · rintro ⟨rfl, hverifies⟩
      exact ⟨t, s, hsm, hverifies⟩
  simp only [hparts]
  refine (unpackneg_spec pk).bind fun q hq => ?_
  cases q with
  | none =>
    refine ensures_pure.mpr fun m' => ⟨nofun, ?_⟩
    rintro ⟨-, A, -, hA, -⟩
    exact absurd hA.1 (hq A)
  | some q =>
    obtain ⟨Q, hQ, hy, hx⟩ := hq
    have hkey := isKey_neg hy hx
    have htake : sm.take 32 = t.toList := by
      rw [hsm, List.take_left' (Vector.length_toList)]
    have hdigest : cryptoHash (sm.take 32 ++ (pk.toList ++ m)) sm.length =
        some (digest (t.toList ++ (pk.toList ++ m))) := by
      rw [htake, cryptoHash_eq (by simp; omega) (by omega), List.take_of_length_le (by simp; omega)]
    have hs : bytesAt sm 32 = some s := by
      have hread := bytesAt_eq hsm
      rwa [Vector.length_toList] at hread
    have ht : bytesAt sm 0 = some t := bytesAt_zero hsm
    obtain ⟨c, hreduce, hc⟩ := reduce_digest (t.toList ++ (pk.toList ++ m))
    obtain ⟨t', ht'⟩ : ∃ t', encodePoint (scalar c • Q + scalar s • basePoint) = t' := ⟨_, rfl⟩
    have hopened := openedCommitment_eq hQ c s
    rw [ht'] at hopened
    -- the bytes are compared, which are of one point
    have hiff : Verifies pk t s m ↔ t = t' := by
      have hpoint : scalar c • Q + scalar s • basePoint =
          scalar s • basePoint - challenge t pk m • -Q := by
        rw [smul_neg, sub_neg_eq_add, add_comm, hc]
        rfl
      rw [← ht', hpoint]
      constructor
      · rintro ⟨A, T, hA, hT, haccepts⟩
        rw [← hA.unique hkey, ← haccepts, hT]
      · intro heq
        exact ⟨-Q, _, hkey, heq.symm, rfl⟩
    have hguard : (guard (sm.length < 2 ^ 31) : Option Unit) = some () := by
      rw [guard, if_pos h]
      rfl
    refine .after hguard
      (.after hdigest (.after hreduce (.after hs (.after hopened (.after ht ?_)))))
    simp only [hiff, cryptoVerify32_ne_zero_iff]
    split
    · next hne => exact ensures_pure.mpr fun m' => ⟨nofun, fun h => absurd h.2 hne⟩
    · next heq =>
      refine ensures_pure.mpr fun m' => ⟨fun h => ⟨Option.some.inj h, not_not.mp heq⟩, ?_⟩
      rintro ⟨rfl, -⟩
      rfl

/-! ### Signing -/

theorem bytesAt_expanded (sk : List UInt8) :
    bytesAt (expanded sk).toList 0 = some (firstHalf (expanded sk)) :=
  bytesAt_zero (toList_halves (expanded sk))

/-- The limbs that start with the bytes of `r`. -/
theorem value_ofFn_bytes (r : Vector UInt8 32) {x : Vector ℤ 64} (hx : (Vector.ofFn fun i =>
    if hi : i.val < 32 then ((r.get ⟨i, hi⟩).toNat : ℤ) else 0) = x) :
    value 256 x.get = leValue r ∧ ∀ l, 0 ≤ x.get l ∧ x.get l ≤ 255 := by
  have hget : ∀ l : Fin 64,
      x.get l = if hi : l.val < 32 then ((r.get ⟨l, hi⟩).toNat : ℤ) else 0 := by
    intro l
    rw [← hx]
    exact Vector.getElem_ofFn l.isLt
  constructor
  · have hlow : (fun j : Fin 32 => x.get (Fin.castAdd 32 j)) = fun j => ((r.get j).toNat : ℤ) :=
      funext fun j => (hget _).trans (dif_pos j.isLt)
    have hhigh : (fun j : Fin 32 => x.get (Fin.natAdd 32 j)) = fun _ => 0 :=
      funext fun j => (hget _).trans (dif_neg (by rw [Fin.val_natAdd]; omega))
    rw [value_split (n := 32) (m := 32), hlow, hhigh, value_zero, mul_zero, add_zero]
    rfl
  · intro l
    rw [hget]
    split
    · next hl =>
      have hb := byte_bounds (r.get ⟨l, hl⟩)
      omega
    · norm_num

/-- **Signing** puts the signature in front of the message. -/
theorem cryptoSign_eq {m : List UInt8} (hm : m.length + 64 < 2 ^ 64) (sk : Vector UInt8 64) :
    cryptoSign m sk = some ((signature sk m).toList ++ m) := by
  apply Ensures.eq_some
  have hhash : ∀ l : List UInt8, ∀ k ≤ 64, l.length = m.length + k →
      cryptoHash l (m.length + k) = some (digest l) := by
    intro l k hk hl
    rw [cryptoHash_eq hl.ge (by omega), List.take_of_length_le hl.le]
  unfold cryptoSign
  refine .after (expandSecret_eq (by simp)) ?_
  -- the nonce, and its commitment in front of the message
  refine .after (hhash ((lastHalf (expanded sk.toList)).toList ++ m) 32 (by norm_num)
    (by rw [List.length_append, Vector.length_toList, Nat.add_comm])) ?_
  refine (reduce_digest _).bind fun r hr => ?_
  refine (scalarbase_spec r).bind fun p hp => ?_
  rw [hr] at hp
  refine .after (a := commitment sk m) (pack_spec hp) ?_
  obtain ⟨t, ht⟩ : ∃ t, commitment sk m = t := ⟨_, rfl⟩
  rw [ht]
  -- the challenge
  refine .after (hhash (t.toList ++ ((lastHalf sk).toList ++ m)) 64 le_rfl ?_) ?_
  · rw [List.length_append, List.length_append, Vector.length_toList, Vector.length_toList]
    omega
  refine (reduce_digest _).bind fun c hc => ?_
  -- the response, from the bytes of the nonce and the products
  refine .after (bytesAt_expanded _) ?_
  obtain ⟨x, hx⟩ : ∃ x : Vector ℤ 64, (Vector.ofFn fun i =>
    if hi : i.val < 32 then ((r.get ⟨i, hi⟩).toNat : ℤ) else 0) = x := ⟨_, rfl⟩
  obtain ⟨hxvalue, hxbounds⟩ := value_ofFn_bytes r hx
  rw [hx]
  refine (multiplyAdd_spec c _ hxbounds).bind fun y hy => ?_
  refine (modL_spec hy.2).bind fun s hs => ensures_pure.mpr ?_
  have hr' : leValue r = (nonce sk.toList m : ℤ) := by
    rw [← cast_scalar, hr]
    rfl
  have hc' : leValue c = (challenge (commitment sk m) (lastHalf sk) m : ℤ) := by
    rw [← cast_scalar, hc, ht]
    rfl
  have hs' : s = scalarBytes (response sk m) := by
    apply leValue_injective
    rw [hs, hy.1, hxvalue, hr', hc', ← cast_scalar,
      leValue_scalarBytes (response_lt sk m), response]
    push_cast
    rfl
  rw [signature, toList_joined, List.append_assoc, ht, hs']

/-- **A key pair**: the public key is the base times the secret number. -/
theorem cryptoSignKeypair_spec (seed : Vector UInt8 32) : Ensures (cryptoSignKeypair seed) fun kp =>
    kp.1 = encodePoint (secret seed.toList • basePoint) ∧ kp.2 = joined seed kp.1 := by
  unfold cryptoSignKeypair
  refine .after (expandSecret_eq (by simp)) (.after (bytesAt_expanded _) ?_)
  refine (scalarbase_spec _).bind fun p hp => ?_
  exact .after (pack_spec hp) (ensures_pure.mpr ⟨rfl, rfl⟩)

/-! ### Signing and opening -/

theorem expanded_joined (seed pk : Vector UInt8 32) :
    expanded (joined seed pk).toList = expanded seed.toList := by
  unfold expanded
  rw [toList_joined, List.take_left' seed.length_toList,
    List.take_of_length_le seed.length_toList.le]

theorem opens_iff {pk t s : Vector UInt8 32} {m : List UInt8} (hm : m.length + 64 < 2 ^ 31) :
    cryptoSignOpen (t.toList ++ (s.toList ++ m)) pk = some (some m) ↔ Verifies pk t s m := by
  have hlength : (t.toList ++ (s.toList ++ m)).length < 2 ^ 31 := by
    simp
    omega
  obtain ⟨r, hr, hopen⟩ := cryptoSignOpen_spec hlength pk
  rw [hr, Option.some_inj, hopen]
  constructor
  · rintro ⟨t', s', heq, hverifies⟩
    obtain ⟨ht, hrest⟩ := List.append_inj heq (by simp)
    obtain ⟨hs, -⟩ := List.append_inj hrest (by simp)
    obtain rfl := Vector.toList_inj.mp ht
    obtain rfl := Vector.toList_inj.mp hs
    exact hverifies
  · exact fun hverifies => ⟨t, s, rfl, hverifies⟩

/-- **A key pair's signature** satisfies the equation. -/
theorem verifies_signature (seed : Vector UInt8 32) {pk : Vector UInt8 32}
    (hpk : pk = encodePoint (secret seed.toList • basePoint)) (m : List UInt8) :
    Verifies pk (commitment (joined seed pk) m) (scalarBytes (response (joined seed pk) m)) m := by
  refine ⟨secret seed.toList • basePoint, nonce (joined seed pk).toList m • basePoint, ?_, rfl, ?_⟩
  · rw [hpk]
    exact isKey_encodePoint _
  · have hsecret : secret (joined seed pk).toList = secret seed.toList := by
      unfold secret
      rw [expanded_joined]
    refine accepts_honest order25519_nsmul_basePoint ?_
    rw [scalar_scalarBytes (response_lt _ m), response, lastHalf_joined, hsecret]
    exact Nat.mod_modEq _ _

/-- An honest signature opens. -/
theorem opens_signature (seed : Vector UInt8 32) {m : List UInt8} (hm : m.length + 64 < 2 ^ 31) :
    ∃ pk sk, cryptoSignKeypair seed = some (pk, sk) ∧
      cryptoSign m sk = some ((signature sk m).toList ++ m) ∧
      cryptoSignOpen ((signature sk m).toList ++ m) pk = some (some m) := by
  obtain ⟨⟨pk, sk⟩, hpair, hpk, hsk⟩ := cryptoSignKeypair_spec seed
  simp only at hpk hsk
  have hopen := (opens_iff hm).mpr (verifies_signature seed hpk m)
  rw [← hsk, ← List.append_assoc, ← toList_joined] at hopen
  exact ⟨pk, sk, hpair, cryptoSign_eq (by omega) sk, hopen⟩

/-- **What a key pair signs** is opened under its public key, and is the message. -/
theorem cryptoSignOpen_cryptoSign (seed : Vector UInt8 32) {m : List UInt8}
    (hm : m.length + 64 < 2 ^ 31) :
    (do
      let (pk, sk) ← cryptoSignKeypair seed
      let sm ← cryptoSign m sk
      cryptoSignOpen sm pk) = some (some m) := by
  obtain ⟨pk, sk, hpair, hsign, hopen⟩ := opens_signature seed hm
  exact Ensures.eq_some (.after hpair (.after hsign ⟨some m, hopen, rfl⟩))

/-- The bytes of `"abc"`. -/
def abc : List UInt8 := [0x61, 0x62, 0x63]

theorem cryptoSignOpen_cryptoSign_abc : abc.length + 64 < 2 ^ 31 ∧
    (do
      let (pk, sk) ← cryptoSignKeypair (Vector.replicate 32 5)
      let sm ← cryptoSign abc sk
      cryptoSignOpen sm pk) = some (some abc) :=
  ⟨by decide, cryptoSignOpen_cryptoSign (Vector.replicate 32 5) (by decide)⟩

/-- **The response counts modulo the order.** -/
theorem verifies_congr {pk t s s' : Vector UInt8 32} {m : List UInt8}
    (h : scalar s ≡ scalar s' [MOD order25519]) : Verifies pk t s m ↔ Verifies pk t s' m := by
  unfold Verifies
  simp only [accepts_congr order25519_nsmul_basePoint h]

/-- **No signature is the only one**: beside each signed message that opens there is another that
opens as the same message under the same key. -/
theorem exists_other_signed {sm m : List UInt8} {pk : Vector UInt8 32} (h : sm.length < 2 ^ 31)
    (hopen : cryptoSignOpen sm pk = some (some m)) :
    ∃ sm' ≠ sm, cryptoSignOpen sm' pk = some (some m) := by
  obtain ⟨r, hr, hspec⟩ := cryptoSignOpen_spec h pk
  rw [hr, Option.some_inj] at hopen
  obtain ⟨t, s, rfl, hverifies⟩ := (hspec m).mp hopen
  have hlt := scalar_lt s
  have horder : order25519 < 2 ^ 253 := by norm_num [order25519]
  have hpos : 0 < order25519 := by norm_num [order25519]
  -- one order more, or one less
  obtain ⟨n, hn, hne, hmod⟩ : ∃ n < 2 ^ 256, n ≠ scalar s ∧ scalar s ≡ n [MOD order25519] := by
    by_cases hroom : scalar s + order25519 < 2 ^ 256
    · exact ⟨scalar s + order25519, hroom, by omega, (Nat.add_modEq_right).symm⟩
    · refine ⟨scalar s - order25519, by omega, by omega, ?_⟩
      have hback : scalar s = scalar s - order25519 + order25519 := by omega
      conv_lhs => rw [hback]
      exact Nat.add_modEq_right
  obtain ⟨s', hs'⟩ : ∃ s', scalar s' = n := ⟨_, scalar_scalarBytes hn⟩
  refine ⟨t.toList ++ (s'.toList ++ m), ?_, ?_⟩
  · intro heq
    have hrest := List.append_cancel_left heq
    have hs := Vector.toList_inj.mp (List.append_inj hrest (by simp)).1
    exact hne (by rw [← hs', hs])
  · refine (opens_iff ?_).mpr ((verifies_congr (by rw [hs']; exact hmod)).mp hverifies)
    simp at h
    omega

/-- Somebody else can change what a key pair has signed. -/
theorem exists_other_signed_abc : ∃ pk sk sm,
    cryptoSignKeypair (Vector.replicate 32 5) = some (pk, sk) ∧ cryptoSign abc sk = some sm ∧
    ∃ sm' ≠ sm, cryptoSignOpen sm' pk = some (some abc) := by
  obtain ⟨pk, sk, hpair, hsign, hopen⟩ := opens_signature (Vector.replicate 32 5)
    (m := abc) (by decide)
  refine ⟨pk, sk, _, hpair, hsign, exists_other_signed ?_ hopen⟩
  rw [List.length_append, Vector.length_toList]
  decide

/-- **The neutral element as a key** opens one signature on every message, so that a signature under
it says nothing of the message: to every second half there is a first. -/
theorem cryptoSignOpen_neutral (s : Vector UInt8 32) : ∃ t : Vector UInt8 32,
    ∀ m : List UInt8, m.length + 64 < 2 ^ 31 →
      cryptoSignOpen (t.toList ++ (s.toList ++ m)) (encodePoint 0) = some (some m) :=
  ⟨encodePoint (scalar s • basePoint), fun _ hm =>
    (opens_iff hm).mpr ⟨0, _, isKey_encodePoint 0, rfl, accepts_zero_iff.mpr rfl⟩⟩

/-- One signature, on a message and on the same message twice. -/
theorem cryptoSignOpen_neutral_abc : ∃ t : Vector UInt8 32,
    cryptoSignOpen (t.toList ++ ((Vector.replicate 32 7).toList ++ abc)) (encodePoint 0) =
      some (some abc) ∧
    cryptoSignOpen (t.toList ++ ((Vector.replicate 32 7).toList ++ (abc ++ abc))) (encodePoint 0) =
      some (some (abc ++ abc)) := by
  obtain ⟨t, hopen⟩ := cryptoSignOpen_neutral (Vector.replicate 32 7)
  exact ⟨t, hopen abc (by decide), hopen (abc ++ abc) (by decide)⟩

end MithAtomas.TweetNacl
