import MithAtomas.Framework.ByteCodec
import MithAtomas.Framework.Sha512
import MithAtomas.TweetNacl.Packing

/-!
# Hashing

`crypto_hash` of `third_party/tweetnacl/tweetnacl.c`, and `crypto_hashblocks`, which keeps 16 words
of the schedule and replaces them in place after every 16 rounds. Messages are read through
pointers: a read outside of the buffer is `none`, as is a write.

`cryptoHash_spec` is that the result is SHA-512 of the message, for any length that a `u64` has, and
that nothing but the message is read. What remains of `n` in `crypto_hashblocks` is not returned
here: no caller looks at it.
-/

namespace MithAtomas.TweetNacl

open CheckedLoop VectorLoop

/-! ### Words -/

/-- `dl64`, at byte `p` of `x`. -/
def dl64 (x : List UInt8) (p : ℕ) : Option UInt64 :=
  forUp 8 (fun i u => (x[p + i.val]?).map fun b => u <<< 8 ||| b.toUInt64) 0

/-- A store through a pointer. -/
def store {n : ℕ} (x : Vector UInt8 n) (p : ℕ) (b : UInt8) : Option (Vector UInt8 n) :=
  if h : p < n then some (x.set p b h) else none

/-- The body of the loop of `ts64`. -/
def ts64Round {n : ℕ} (p : ℕ) (i : Fin 8) (s : Vector UInt8 n × UInt64) :
    Option (Vector UInt8 n × UInt64) := do
  let (x, u) := s
  let x ← store x (p + i.val) u.toUInt8
  pure (x, u >>> 8)

/-- `ts64`, at byte `p` of `x`. -/
def ts64 {n : ℕ} (x : Vector UInt8 n) (p : ℕ) (u : UInt64) : Option (Vector UInt8 n) := do
  let (x, _) ← forDown 8 (ts64Round p) (x, u)
  pure x

/-- `R` -/
def R (x c : UInt64) : UInt64 :=
  x >>> c ||| x <<< (64 - c)

/-- `Ch` -/
def Ch (x y z : UInt64) : UInt64 :=
  (x &&& y) ^^^ (~~~x &&& z)

/-- `Maj` -/
def Maj (x y z : UInt64) : UInt64 :=
  (x &&& y) ^^^ (x &&& z) ^^^ (y &&& z)

/-- `Sigma0` -/
def Sigma0 (x : UInt64) : UInt64 :=
  R x 28 ^^^ R x 34 ^^^ R x 39

/-- `Sigma1` -/
def Sigma1 (x : UInt64) : UInt64 :=
  R x 14 ^^^ R x 18 ^^^ R x 41

/-- `sigma0` -/
def sigma0 (x : UInt64) : UInt64 :=
  R x 1 ^^^ R x 8 ^^^ x >>> 7

/-- `sigma1` -/
def sigma1 (x : UInt64) : UInt64 :=
  R x 19 ^^^ R x 61 ^^^ x >>> 6

/-- `K` -/
def K : Vector UInt64 80 :=
  #v[0x428a2f98d728ae22, 0x7137449123ef65cd, 0xb5c0fbcfec4d3b2f, 0xe9b5dba58189dbbc,
    0x3956c25bf348b538, 0x59f111f1b605d019, 0x923f82a4af194f9b, 0xab1c5ed5da6d8118,
    0xd807aa98a3030242, 0x12835b0145706fbe, 0x243185be4ee4b28c, 0x550c7dc3d5ffb4e2,
    0x72be5d74f27b896f, 0x80deb1fe3b1696b1, 0x9bdc06a725c71235, 0xc19bf174cf692694,
    0xe49b69c19ef14ad2, 0xefbe4786384f25e3, 0x0fc19dc68b8cd5b5, 0x240ca1cc77ac9c65,
    0x2de92c6f592b0275, 0x4a7484aa6ea6e483, 0x5cb0a9dcbd41fbd4, 0x76f988da831153b5,
    0x983e5152ee66dfab, 0xa831c66d2db43210, 0xb00327c898fb213f, 0xbf597fc7beef0ee4,
    0xc6e00bf33da88fc2, 0xd5a79147930aa725, 0x06ca6351e003826f, 0x142929670a0e6e70,
    0x27b70a8546d22ffc, 0x2e1b21385c26c926, 0x4d2c6dfc5ac42aed, 0x53380d139d95b3df,
    0x650a73548baf63de, 0x766a0abb3c77b2a8, 0x81c2c92e47edaee6, 0x92722c851482353b,
    0xa2bfe8a14cf10364, 0xa81a664bbc423001, 0xc24b8b70d0f89791, 0xc76c51a30654be30,
    0xd192e819d6ef5218, 0xd69906245565a910, 0xf40e35855771202a, 0x106aa07032bbd1b8,
    0x19a4c116b8d2d0c8, 0x1e376c085141ab53, 0x2748774cdf8eeb99, 0x34b0bcb5e19b48a8,
    0x391c0cb3c5c95a63, 0x4ed8aa4ae3418acb, 0x5b9cca4f7763e373, 0x682e6ff3d6b2b8a3,
    0x748f82ee5defb2fc, 0x78a5636f43172f60, 0x84c87814a1f0ab72, 0x8cc702081a6439ec,
    0x90befffa23631e28, 0xa4506cebde82bde9, 0xbef9a3f7b2c67915, 0xc67178f2e372532b,
    0xca273eceea26619c, 0xd186b8c721c0c207, 0xeada7dd6cde0eb1e, 0xf57d4f7fee6ed178,
    0x06f067aa72176fba, 0x0a637dc5a2c898a6, 0x113f9804bef90dae, 0x1b710b35131c471b,
    0x28db77f523047d84, 0x32caab7b40c72493, 0x3c9ebe0a15c9bebc, 0x431d67c49c100d4c,
    0x4cc5d4becb3e42b6, 0x597f299cfc657e2a, 0x5fcb6fab3ad6faec, 0x6c44198c4a475817]

/-- `iv` -/
def iv : Vector UInt8 64 :=
  #v[0x6a, 0x09, 0xe6, 0x67, 0xf3, 0xbc, 0xc9, 0x08,
    0xbb, 0x67, 0xae, 0x85, 0x84, 0xca, 0xa7, 0x3b,
    0x3c, 0x6e, 0xf3, 0x72, 0xfe, 0x94, 0xf8, 0x2b,
    0xa5, 0x4f, 0xf5, 0x3a, 0x5f, 0x1d, 0x36, 0xf1,
    0x51, 0x0e, 0x52, 0x7f, 0xad, 0xe6, 0x82, 0xd1,
    0x9b, 0x05, 0x68, 0x8c, 0x2b, 0x3e, 0x6c, 0x1f,
    0x1f, 0x83, 0xd9, 0xab, 0xfb, 0x41, 0xbd, 0x6b,
    0x5b, 0xe0, 0xcd, 0x19, 0x13, 0x7e, 0x21, 0x79]

/-! ### Blocks -/

/-- `w[(j+d)%16]` -/
def scheduleWord (w : Vector UInt64 16) (j d : ℕ) : UInt64 :=
  w.get ⟨(j + d) % 16, by omega⟩

/-- The body of the loop that replaces the words of the schedule. -/
def scheduleRound (j : Fin 16) (w : Vector UInt64 16) : Option (Vector UInt64 16) :=
  pure (setAt w j (w.get j +
    (scheduleWord w j 9 + sigma0 (scheduleWord w j 1) + sigma1 (scheduleWord w j 14))))

/-- `(j+1)%8` -/
def nextVariable (j : Fin 8) : Fin 8 :=
  ⟨(j.val + 1) % 8, by omega⟩

/-- The body of the loop over the 80 rounds: `a` and `w`. -/
def hashRound (i : Fin 80) (s : Vector UInt64 8 × Vector UInt64 16) :
    Option (Vector UInt64 8 × Vector UInt64 16) := do
  let (a, w) := s
  let t := a.get 7 + Sigma1 (a.get 4) + Ch (a.get 4) (a.get 5) (a.get 6) + K.get i +
    scheduleWord w i 0
  let b := setAt a 7 (t + Sigma0 (a.get 0) + Maj (a.get 0) (a.get 1) (a.get 2))
  let b := setAt b 3 (b.get 3 + t)
  let a ← forUp 8 (fun j a => pure (setAt a (nextVariable j) (b.get j))) a
  let w ← (if i.val % 16 = 15 then forUp 16 scheduleRound w else pure w)
  pure (a, w)

/-- The body of the loop over the blocks: `z` and `a`. -/
def hashBlock (m : List UInt8) (p : ℕ) (s : Vector UInt64 8 × Vector UInt64 8) :
    Option (Vector UInt64 8 × Vector UInt64 8) := do
  let (z, a) := s
  let w ← forUp 16 (fun i w => (dl64 m (p + 8 * i.val)).map fun u => setAt w i u)
    (Vector.replicate 16 0)
  let (a, _) ← forUp 80 hashRound (a, w)
  forUp 8 (fun i (z, a) =>
    let a := setAt a i (a.get i + z.get i)
    pure (setAt z i (a.get i), a)) (z, a)

/-- The loop over the blocks, with `n` bytes left at `p`. -/
def hashLoop (m : List UInt8) (p n : ℕ) (s : Vector UInt64 8 × Vector UInt64 8) :
    Option (Vector UInt64 8 × Vector UInt64 8) :=
  if 128 ≤ n then do
    let s ← hashBlock m p s
    hashLoop m (p + 128) (n - 128) s
  else pure s
termination_by n

/-- `crypto_hashblocks`, of `n` bytes at the start of `m`. -/
def cryptoHashblocks (x : Vector UInt8 64) (m : List UInt8) (n : ℕ) : Option (Vector UInt8 64) := do
  let z ← forUp 8 (fun i z => (dl64 x.toList (8 * i.val)).map fun u => setAt z i u)
    (Vector.replicate 8 0)
  let (z, _) ← hashLoop m 0 n (z, z)
  forUp 8 (fun i x => ts64 x (8 * i.val) (z.get i)) x

/-- `256-128*(n<112)` -/
def paddedLength (r : ℕ) : ℕ :=
  256 - 128 * (if r < 112 then 1 else 0)

/-- The buffer of `crypto_hash`, with the last `r` of `n` bytes in front. -/
def paddedBuffer (m : List UInt8) (n r : ℕ) : Option (Vector UInt8 256) := do
  let b := UInt64.ofNat n
  let x ← forUp r (fun i x => (m[n - r + i.val]?).bind (store x i.val)) (Vector.replicate 256 0)
  let x ← store x r 128
  let x ← store x (paddedLength r - 9) (b >>> 61).toUInt8
  ts64 x (paddedLength r - 8) (b <<< 3)

/-- `crypto_hash`, of `n` bytes at the start of `m`. -/
def cryptoHash (m : List UInt8) (n : ℕ) : Option (Vector UInt8 64) := do
  let h ← cryptoHashblocks iv m n
  let r := n &&& 127
  let x ← paddedBuffer m n r
  cryptoHashblocks h x.toList (paddedLength r)

/-! ### The constants -/

/-- The first primes. -/
def primes : Vector ℕ 80 :=
  #v[2, 3, 5, 7, 11, 13, 17, 19, 23, 29, 31, 37, 41, 43, 47, 53,
    59, 61, 67, 71, 73, 79, 83, 89, 97, 101, 103, 107, 109, 113, 127, 131,
    137, 139, 149, 151, 157, 163, 167, 173, 179, 181, 191, 193, 197, 199, 211, 223,
    227, 229, 233, 239, 241, 251, 257, 263, 269, 271, 277, 281, 283, 293, 307, 311,
    313, 317, 331, 337, 347, 349, 353, 359, 367, 373, 379, 383, 389, 397, 401, 409]

/-- The tables are what the standard says: the cubes and squares around each entry. -/
theorem hash_constants :
    (∀ t : Fin 80, primes.get t < 441 ∧ Sha512.isPrime (primes.get t) = true ∧
      Nat.count (fun n => Sha512.isPrime n = true) (primes.get t) = t.val) ∧
    (∀ t : Fin 80, ∃ m ∈ List.range 8,
      (m * 2 ^ 64 + (K.get t).toNat) ^ 3 ≤ primes.get t * 2 ^ (64 * 3) ∧
        primes.get t * 2 ^ (64 * 3) < (m * 2 ^ 64 + (K.get t).toNat + 1) ^ 3) ∧
    (∀ i : Fin 8, ∃ m ∈ List.range 8,
      (m * 2 ^ 64 + (Sha512.wordAt iv.toList (8 * i.val)).toNat) ^ 2 ≤
          primes.get ⟨i.val, by omega⟩ * 2 ^ (64 * 2) ∧
        primes.get ⟨i.val, by omega⟩ * 2 ^ (64 * 2) <
          (m * 2 ^ 64 + (Sha512.wordAt iv.toList (8 * i.val)).toNat + 1) ^ 2) ∧
    iv.toList = Sha512.wordBytes
      ((List.finRange 8).map fun i => Sha512.wordAt iv.toList (8 * i.val)) := by
  decide +kernel

theorem nth_prime (t : Fin 80) : Nat.nth Nat.Prime t = primes.get t := by
  obtain ⟨hsmall, hprime, hcount⟩ := hash_constants.1 t
  exact Sha512.nth_prime_of_count hsmall hprime hcount

theorem K_eq (t : Fin 80) : K.get t = Sha512.roundConstant t := by
  obtain ⟨m, -, hlow, hhigh⟩ := hash_constants.2.1 t
  exact (Sha512.rootBits_eq (nth_prime t) hlow hhigh).symm

theorem iv_eq : iv.toList = Sha512.initialHash.toBytes := by
  have hword : ∀ i : Fin 8, Sha512.wordAt iv.toList (8 * i.val) = Sha512.rootBits 2 i := by
    intro i
    obtain ⟨m, -, hlow, hhigh⟩ := hash_constants.2.2.1 i
    exact (Sha512.rootBits_eq (nth_prime ⟨i.val, by omega⟩) hlow hhigh).symm
  rw [hash_constants.2.2.2]
  simp only [hword]
  rfl

/-! ### Words in memory -/

theorem shift_or (x : ℕ) (b : UInt8) :
    UInt64.ofNat x <<< 8 ||| b.toUInt64 = UInt64.ofNat (256 * x + b.toNat) := by
  apply UInt64.toNat_inj.mp
  have hb := b.toNat_lt
  have hshift : (UInt64.ofNat x <<< 8).toNat = (x % 2 ^ 56) <<< 8 := by
    rw [UInt64.toNat_shiftLeft, UInt64.toNat_ofNat', Nat.shiftLeft_eq, Nat.shiftLeft_eq]
    show x % 2 ^ 64 * 2 ^ 8 % 2 ^ 64 = _
    omega
  rw [UInt64.toNat_or, hshift, UInt8.toNat_toUInt64, Nat.lor_comm, ByteCodec.or_shiftLeft _ hb,
    UInt64.toNat_ofNat']
  omega

/-- **A word read.** -/
theorem dl64_spec {x : List UInt8} {p : ℕ} (h : p + 8 ≤ x.length) :
    dl64 x p = some (Sha512.wordAt x p) := by
  refine Ensures.eq_some (ensures_forUp
    (fun k u => u = UInt64.ofNat (Sha512.ofBytes ((x.drop p).take k))) rfl fun i u hu => ?_)
  obtain ⟨b, hget⟩ : ∃ b, x[p + i.val]? = some b := ⟨_, List.getElem?_eq_getElem (by omega)⟩
  have htake : (x.drop p).take (i.val + 1) = (x.drop p).take i.val ++ [b] := by
    rw [List.take_add_one, List.getElem?_drop, hget]
    rfl
  rw [hget, hu, htake, Sha512.ofBytes_append]
  exact ensures_some.mpr (shift_or _ _)

theorem store_spec {n : ℕ} {x : Vector UInt8 n} {l r : List UInt8} {b : UInt8} (b' : UInt8)
    (hx : x.toList = l ++ b :: r) :
    Ensures (store x l.length b') fun y => y.toList = l ++ b' :: r := by
  have hlength : l.length < n := by
    have hn : x.toList.length = n := by simp
    rw [hx, List.length_append, List.length_cons] at hn
    omega
  rw [store, dif_pos hlength]
  refine ensures_some.mpr ?_
  rw [Vector.toList_set, hx, List.set_append_right _ _ le_rfl, Nat.sub_self, List.set_cons_zero]

/-- **A word written**, from its least byte down. -/
theorem ts64_spec {n : ℕ} {x : Vector UInt8 n} {l m r : List UInt8} (u : UInt64)
    (hx : x.toList = l ++ (m ++ r)) (hm : m.length = 8) :
    Ensures (ts64 x l.length u) fun y => y.toList = l ++ (Sha512.toBytes 8 u.toNat ++ r) := by
  -- with `k` bytes left, those above them are written
  have hloop : Ensures (forDown 8 (ts64Round l.length) (x, u)) fun s =>
      s.1.toList = l ++ (m.take 0 ++ ((Sha512.toBytes 8 u.toNat).drop 0 ++ r)) ∧
        s.2.toNat = u.toNat / 256 ^ (8 - 0) := by
    refine ensures_forDown (fun k (s : Vector UInt8 n × UInt64) =>
      s.1.toList = l ++ (m.take k ++ ((Sha512.toBytes 8 u.toNat).drop k ++ r)) ∧
        s.2.toNat = u.toNat / 256 ^ (8 - k)) ⟨?_, by simp⟩ ?_
    · rw [List.take_of_length_le hm.le, List.drop_of_length_le (by simp), hx]
      rfl
    · rintro i ⟨y, v⟩ ⟨hy, hv⟩
      have hlength : (l ++ m.take i.val).length = l.length + i.val := by
        rw [List.length_append, List.length_take, min_eq_left (by omega)]
      have hi : i.val < m.length := by omega
      have hi' : i.val < (Sha512.toBytes 8 u.toNat).length := by simp
      have htake : m.take (i.val + 1) = m.take i.val ++ [m[i.val]] := by
        rw [List.take_add_one, List.getElem?_eq_getElem hi]
        rfl
      have hsplit : y.toList = (l ++ m.take i.val) ++ m[i.val] ::
          ((Sha512.toBytes 8 u.toNat).drop (i.val + 1) ++ r) := by
        rw [hy, htake]
        simp only [List.append_assoc, List.singleton_append]
      have hbyte : v.toUInt8 = (Sha512.toBytes 8 u.toNat)[i.val] := by
        rw [Sha512.getElem_toBytes]
        apply UInt8.toNat_inj.mp
        rw [UInt64.toNat_toUInt8, UInt8.toNat_ofNat', hv,
          show 8 - (i.val + 1) = 8 - 1 - i.val by omega]
      unfold ts64Round
      rw [← hlength]
      refine (store_spec _ hsplit).bind fun z hz => ensures_pure.mpr ⟨?_, ?_⟩
      · rw [hz, hbyte, List.append_assoc, ← List.cons_append,
          ← List.drop_eq_getElem_cons]
      · show (v >>> 8).toNat = _
        rw [UInt64.toNat_shiftRight, hv, show 8 - i.val = 8 - (i.val + 1) + 1 by omega, pow_succ,
          ← Nat.div_div_eq_div_mul]
        exact Nat.shiftRight_eq_div_pow _ 8
  refine hloop.bind ?_
  rintro ⟨y, v⟩ ⟨hy, -⟩
  exact ensures_pure.mpr hy

/-! ### Rounds -/

/-- The variables of the standard. -/
def working (a : Vector UInt64 8) : Sha512.Working :=
  ⟨a.get 0, a.get 1, a.get 2, a.get 3, a.get 4, a.get 5, a.get 6, a.get 7⟩

/-- **The next 16 words**, each in the place of the one it is computed from. -/
theorem scheduleRound_spec {M : ℕ → UInt64} {q : ℕ} {w : Vector UInt64 16}
    (hw : ∀ l : Fin 16, w.get l = Sha512.schedule M (16 * q + l)) :
    Ensures (forUp 16 scheduleRound w) fun w' =>
      ∀ l : Fin 16, w'.get l = Sha512.schedule M (16 * (q + 1) + l) := by
  refine (ensures_forUp (fun k (v : Vector UInt64 16) => ∀ l : Fin 16, v.get l =
    Sha512.schedule M (if l.val < k then 16 * (q + 1) + l else 16 * q + l)) ?_ ?_).mono ?_
  · intro l
    rw [if_neg (Nat.not_lt_zero _), hw l]
  · intro j v hv
    -- a word that has been replaced is sixteen further on
    have hword : ∀ d < 16, scheduleWord v j d = Sha512.schedule M (16 * q + j.val + d) := by
      intro d hd
      rw [scheduleWord, hv]
      congr 1
      show (if (j.val + d) % 16 < j.val then 16 * (q + 1) + (j.val + d) % 16
        else 16 * q + (j.val + d) % 16) = _
      split <;> omega
    have hself : v.get j = Sha512.schedule M (16 * q + j.val) := by
      rw [hv, if_neg (lt_irrefl _)]
    refine ensures_pure.mpr fun l => ?_
    rw [get_setAt]
    split
    · next heq =>
      rw [heq, if_pos (Nat.lt_succ_self _), hself, hword 9 (by omega), hword 1 (by omega),
        hword 14 (by omega), show 16 * (q + 1) + j.val = 16 * q + j.val + 16 by omega,
        Sha512.schedule_add]
      show _ + (_ + Sha512.lowerSigma0 _ + Sha512.lowerSigma1 _) = _
      ac_rfl
    · next hne =>
      have hval : l.val ≠ j.val := fun h => hne (Fin.ext h)
      rw [hv l]
      congr 1
      split <;> split <;> omega
  · intro v hv l
    rw [hv l, if_pos l.isLt]

/-- What holds before round `i`. -/
structure RoundsDone (M : ℕ → UInt64) (H : Sha512.Working) (i : ℕ)
    (s : Vector UInt64 8 × Vector UInt64 16) : Prop where
  working_eq : working s.1 = H.rounds (Sha512.schedule M) i
  words : ∀ l : Fin 16, s.2.get l = Sha512.schedule M (16 * (i / 16) + l)

theorem nextVariable_injective : Function.Injective nextVariable := by
  intro i j h
  have hval : (i.val + 1) % 8 = (j.val + 1) % 8 := congrArg Fin.val h
  exact Fin.ext (by omega)

/-- The variables are moved by one. -/
theorem move_spec (a b : Vector UInt64 8) :
    Ensures (forUp 8 (fun j a => pure
      (setAt a (nextVariable j) (b.get j))) a) fun a' =>
        ∀ l, a'.get (nextVariable l) = b.get l := by
  refine (ensures_forUp (fun k (a' : Vector UInt64 8) =>
    ∀ l : Fin 8, l.val < k → a'.get (nextVariable l) = b.get l) ?_ ?_).mono ?_
  · exact fun l hl => absurd hl (Nat.not_lt_zero _)
  · intro j a' ha
    refine ensures_pure.mpr fun l hl => ?_
    rw [get_setAt]
    split
    · next heq => rw [nextVariable_injective heq]
    · next hne =>
      refine ha l (lt_of_le_of_ne (Nat.lt_succ_iff.mp hl) fun h => hne ?_)
      rw [Fin.ext h]
  · exact fun a' ha l => ha l l.isLt

theorem get_set_three_seven (a : Vector UInt64 8) (x y : UInt64) (l : Fin 8) :
    (setAt (setAt a 7 x) 3 y).get l = if l = 3 then y else if l = 7 then x else a.get l :=
  (get_setAt _ 3 l y).trans (if_congr Iff.rfl rfl (get_setAt a 7 l x))

theorem get_three_set_seven (a : Vector UInt64 8) (x : UInt64) : (setAt a 7 x).get 3 = a.get 3 :=
  (get_setAt a 7 3 x).trans (if_neg (by decide))

/-- **A round** of the standard. -/
theorem RoundsDone.round {M : ℕ → UInt64} {H : Sha512.Working} {i : Fin 80}
    {s : Vector UInt64 8 × Vector UInt64 16} (h : RoundsDone M H i s) :
    Ensures (hashRound i s) (RoundsDone M H (i + 1)) := by
  obtain ⟨a, w⟩ := s
  have hword : scheduleWord w i 0 = Sha512.schedule M i := by
    rw [scheduleWord, h.words]
    congr 1
    show 16 * (i.val / 16) + (i.val + 0) % 16 = i.val
    omega
  unfold hashRound
  refine (move_spec a _).bind fun a' ha => ?_
  have hworking : working a' = H.rounds (Sha512.schedule M) (i + 1) := by
    have hround : H.rounds (Sha512.schedule M) (i + 1) =
        (working a).round (K.get i) (scheduleWord w i 0) := by
      rw [Sha512.Working.rounds, ← h.working_eq, K_eq, hword]
    rw [hround]
    simp only [get_set_three_seven, get_three_set_seven] at ha
    -- `d` and `h` are new
    exact Sha512.Working.ext ((ha 7).trans (UInt64.add_assoc _ _ _)) (ha 0) (ha 1) (ha 2) (ha 3)
      (ha 4) (ha 5) (ha 6)
  split
  · next hlast =>
    refine (scheduleRound_spec h.words).bind fun w' hw => ensures_pure.mpr ⟨hworking, fun l => ?_⟩
    rw [show (i.val + 1) / 16 = i.val / 16 + 1 by omega]
    exact hw l
  · next hlast =>
    refine ensures_pure.mpr ⟨hworking, fun l => ?_⟩
    rw [show (i.val + 1) / 16 = i.val / 16 by omega]
    exact h.words l

/-! ### Messages -/

/-- The words of the block at byte `p`. -/
def wordsAt (m : List UInt8) (p t : ℕ) : UInt64 :=
  Sha512.wordAt m (p + 8 * t)

/-- **A block** of the standard. -/
theorem hashBlock_spec {m : List UInt8} {p : ℕ} (h : p + 128 ≤ m.length) (z : Vector UInt64 8) :
    Ensures (hashBlock m p (z, z)) fun s => s.1 = s.2 ∧
      working s.1 = Sha512.compress (wordsAt m p) (working z) := by
  unfold hashBlock
  refine (ensures_fill (P := fun i u => u = wordsAt m p i.val) (fun i => ?_) _).bind fun w hw => ?_
  · rw [dl64_spec (by omega)]
    exact ensures_some.mpr rfl
  refine (ensures_forUp (RoundsDone (wordsAt m p) (working z)) ⟨rfl, fun l => ?_⟩
    fun i s hs => hs.round).bind ?_
  · show w.get l = _
    rw [hw l, Sha512.schedule_of_lt _ (by omega)]
    congr 1
    omega
  rintro ⟨a, w'⟩ hs
  have hworking : working a = (working z).rounds (Sha512.schedule (wordsAt m p)) 80 := hs.working_eq
  -- the working variables are added to the state, and both copies of it are the sum
  refine (ensures_forUp (fun k (s : Vector UInt64 8 × Vector UInt64 8) => ∀ l : Fin 8,
    s.1.get l = (if l.val < k then a.get l + z.get l else z.get l) ∧
      s.2.get l = if l.val < k then a.get l + z.get l else a.get l) ?_ ?_).mono ?_
  · exact fun l => ⟨rfl, rfl⟩
  · rintro i ⟨z', a'⟩ hs'
    have hself := hs' i
    simp only [lt_irrefl, if_false] at hself
    refine ensures_pure.mpr fun l => ?_
    have hnew : (setAt a' i (a'.get i + z'.get i)).get i = a.get i + z.get i := by
      rw [get_setAt, if_pos rfl, hself.1, hself.2]
    show (setAt z' i ((setAt a' i (a'.get i + z'.get i)).get i)).get l = _ ∧
      (setAt a' i (a'.get i + z'.get i)).get l = _
    rw [hnew, get_setAt, get_setAt]
    by_cases hl : l = i
    · rw [hl, if_pos rfl, if_pos rfl, if_pos (Nat.lt_succ_self _), if_pos (Nat.lt_succ_self _),
        hself.1, hself.2]
      exact ⟨rfl, rfl⟩
    · have hval : l.val ≠ i.val := fun h => hl (Fin.ext h)
      have hiff : l.val < i.val + 1 ↔ l.val < i.val := by omega
      rw [if_neg hl, if_neg hl]
      simp only [hiff]
      exact hs' l
  · rintro ⟨z', a'⟩ hs'
    have hz : ∀ l : Fin 8, z'.get l = a.get l + z.get l := fun l => by rw [(hs' l).1, if_pos l.isLt]
    have ha : ∀ l : Fin 8, a'.get l = a.get l + z.get l := fun l => by rw [(hs' l).2, if_pos l.isLt]
    refine ⟨Vector.ext fun l hl => (hz ⟨l, hl⟩).trans (ha ⟨l, hl⟩).symm, ?_⟩
    rw [Sha512.compress, ← hworking]
    exact Sha512.Working.ext (hz 0) (hz 1) (hz 2) (hz 3) (hz 4) (hz 5) (hz 6) (hz 7)

/-- **The loop** takes the blocks one after another. -/
theorem hashLoop_spec {m : List UInt8} {p n : ℕ} (h : p + n ≤ m.length) (z : Vector UInt64 8) :
    Ensures (hashLoop m p n (z, z)) fun s =>
      working s.1 = Sha512.hashes (fun i => wordsAt m (p + 128 * i)) (working z) (n / 128) := by
  induction n using Nat.strong_induction_on generalizing p z with
  | _ n ih =>
    rw [hashLoop]
    split
    · next hn =>
      refine (hashBlock_spec (by omega) z).bind ?_
      rintro ⟨z₁, a₁⟩ ⟨heq, hz₁⟩
      simp only at heq
      rw [← heq]
      refine (ih (n - 128) (by omega) (by omega) z₁).mono fun s hs => ?_
      rw [hs, show n / 128 = 1 + (n - 128) / 128 by omega, Sha512.hashes_add]
      congr 1
      funext i
      rw [show p + 128 * (1 + i) = p + 128 + 128 * i by omega]
    · next hn =>
      rw [Nat.div_eq_of_lt (by omega)]
      exact ensures_pure.mpr rfl

/-- The variables as a list. -/
def wordList (z : Vector UInt64 8) : List UInt64 :=
  (List.finRange 8).map z.get

theorem wordBytes_wordList (z : Vector UInt64 8) :
    Sha512.wordBytes (wordList z) = (working z).toBytes := rfl

/-- **Whole blocks**: what is in the state is the hash value. -/
theorem cryptoHashblocks_spec {x : Vector UInt8 64} {H : Sha512.Working} (hx : x.toList = H.toBytes)
    {m : List UInt8} {n : ℕ} (h : n ≤ m.length) : Ensures (cryptoHashblocks x m n) fun y =>
      y.toList = (Sha512.hashes (fun i => wordsAt m (128 * i)) H (n / 128)).toBytes := by
  unfold cryptoHashblocks
  have hwords : ∀ i : Fin 8, dl64 x.toList (8 * i.val) =
      some ([H.a, H.b, H.c, H.d, H.e, H.f, H.g, H.h].get i) := by
    intro i
    rw [dl64_spec (by rw [Vector.length_toList]; omega), hx]
    exact congrArg some (Sha512.wordAt_wordBytes i.isLt)
  refine (ensures_fill (P := fun i u => u = [H.a, H.b, H.c, H.d, H.e, H.f, H.g, H.h].get i)
    (fun i => ⟨_, hwords i, rfl⟩) _).bind fun z hz => ?_
  have hworking : working z = H :=
    Sha512.Working.ext (hz 0) (hz 1) (hz 2) (hz 3) (hz 4) (hz 5) (hz 6) (hz 7)
  refine (hashLoop_spec (p := 0) (n := n) (by omega) z).bind ?_
  rintro ⟨z', a'⟩ hz'
  simp only [Nat.zero_add] at hz'
  rw [← hworking, ← hz']
  -- the words that are written, and what was there behind them
  refine (ensures_forUp (fun k (y : Vector UInt8 64) => y.toList =
    Sha512.wordBytes ((wordList z').take k) ++ x.toList.drop (8 * k)) rfl ?_).mono ?_
  · intro i y hy
    have hlength : (Sha512.wordBytes ((wordList z').take i.val)).length = 8 * i.val := by
      rw [Sha512.length_wordBytes, List.length_take, wordList, List.length_map,
        List.length_finRange, min_eq_left (by omega)]
    have htake : (wordList z').take (i.val + 1) = (wordList z').take i.val ++ [z'.get i] := by
      rw [List.take_add_one, wordList, List.getElem?_map, List.getElem?_eq_getElem (by simp)]
      simp
    have hsplit : y.toList = Sha512.wordBytes ((wordList z').take i.val) ++
        ((x.toList.drop (8 * i.val)).take 8 ++ x.toList.drop (8 * (i.val + 1))) := by
      rw [hy, Nat.mul_succ, ← List.drop_drop, List.take_append_drop]
    have hround := ts64_spec (z'.get i) hsplit (by
      rw [List.length_take, List.length_drop, Vector.length_toList]
      omega)
    rw [hlength] at hround
    refine hround.mono fun y' hy' => ?_
    rw [hy', htake, Sha512.wordBytes_append, List.append_assoc]
  · intro y hy
    have hall : (wordList z').take 8 = wordList z' :=
      List.take_of_length_le (by rw [wordList, List.length_map, List.length_finRange])
    rw [hy, hall, wordBytes_wordList, List.drop_of_length_le (by rw [Vector.length_toList]),
      List.append_nil]

/-- The length as the two stores write it, behind zeros. -/
theorem toBytes_bits {n : ℕ} (h : n < 2 ^ 64) : Sha512.toBytes 16 (8 * n) =
    List.replicate 7 (0 : UInt8) ++ (UInt64.ofNat n >>> 61).toUInt8 ::
      Sha512.toBytes 8 (UInt64.ofNat n <<< 3).toNat := by
  have hn : (UInt64.ofNat n).toNat = n := by
    rw [UInt64.toNat_ofNat', Nat.mod_eq_of_lt h]
  have hlow : (UInt64.ofNat n <<< 3).toNat = 8 * n % 256 ^ 8 := by
    rw [UInt64.toNat_shiftLeft, hn, Nat.shiftLeft_eq, Nat.mul_comm]
    rfl
  have hhigh : (UInt64.ofNat n >>> 61).toUInt8 = UInt8.ofNat (8 * n / 256 ^ 8) := by
    apply UInt8.toNat_inj.mp
    rw [UInt64.toNat_toUInt8, UInt64.toNat_shiftRight, hn, UInt8.toNat_ofNat',
      Nat.shiftRight_eq_div_pow]
    show n / 2 ^ 61 % 2 ^ 8 = _
    omega
  have hzero : 8 * n / 256 ^ 8 / 256 = 0 := by
    rw [Nat.div_div_eq_div_mul]
    exact Nat.div_eq_of_lt (by omega)
  rw [Sha512.toBytes_add 8 8, Sha512.toBytes_succ 7, hzero, hlow, Sha512.toBytes_mod le_rfl, hhigh,
    List.append_assoc]
  rfl

/-- What the buffer holds: the rest of the message, its padding, and zeros behind a first block. -/
theorem paddedBuffer_spec {m : List UInt8} {n r : ℕ} (h : n ≤ m.length) (hn : n < 2 ^ 64)
    (hr : n % 128 = r) : Ensures (paddedBuffer m n r) fun x =>
      ∃ rest, x.toList = (m.take n).drop (n - r) ++ Sha512.padding n ++ rest := by
  obtain ⟨zeros, hzeros⟩ : ∃ zeros, (239 - r) % 128 = zeros := ⟨_, rfl⟩
  obtain ⟨last, hlast⟩ : ∃ last, (m.take n).drop (n - r) = last := ⟨_, rfl⟩
  obtain ⟨k, hk⟩ : ∃ k, paddedLength r = k := ⟨_, rfl⟩
  have hlength : last.length = r := by
    rw [← hlast, List.length_drop, List.length_take, min_eq_left h]
    omega
  have hk' : k = r + 1 + zeros + 16 := by
    rw [← hk, ← hzeros, paddedLength]
    split <;> omega
  unfold paddedBuffer
  simp only [hk]
  rw [hlast]
  refine (ensures_forUp (fun j (x : Vector UInt8 256) =>
    x.toList = last.take j ++ List.replicate (256 - j) 0) ?_ fun i x hx => ?_).bind fun x hx => ?_
  · rw [List.take_zero, Vector.toList_replicate]
    rfl
  · have hi : i.val < last.length := by omega
    have hbyte : m[n - r + i.val]? = some last[i.val] := by
      have hsome := List.getElem?_eq_getElem hi
      rw [← hsome, ← hlast, List.getElem?_drop, List.getElem?_take_of_lt (by omega)]
    have hlen : (last.take i.val).length = i.val := by
      rw [List.length_take, min_eq_left hi.le]
    rw [show 256 - i.val = 255 - i.val + 1 by omega, List.replicate_succ] at hx
    have hstore := store_spec last[i.val] hx
    rw [hlen] at hstore
    rw [hbyte]
    refine hstore.mono fun y hy => ?_
    rw [hy, List.take_add_one, List.getElem?_eq_getElem hi,
      show 256 - (i.val + 1) = 255 - i.val by omega,
      List.append_assoc]
    rfl
  -- a one behind the message
  rw [List.take_of_length_le hlength.le, show 256 - r = 255 - r + 1 by omega,
    List.replicate_succ] at hx
  have hone := store_spec 128 hx
  rw [hlength] at hone
  refine hone.bind fun x hx => ?_
  have hsplit : (List.replicate (255 - r) 0 : List UInt8) =
      List.replicate (zeros + 7) 0 ++ 0 :: (List.replicate 8 0 ++ List.replicate (256 - k) 0) := by
    rw [show 255 - r = zeros + 7 + (1 + (8 + (256 - k))) by omega, List.replicate_add,
      List.replicate_add 1, List.replicate_add 8]
    rfl
  rw [hsplit, ← List.cons_append, ← List.append_assoc] at hx
  have hhigh := store_spec (UInt64.ofNat n >>> 61).toUInt8 hx
  rw [List.length_append, List.length_cons, List.length_replicate, hlength,
    show r + (zeros + 7 + 1) = k - 9 by omega] at hhigh
  refine hhigh.bind fun x hx => ?_
  rw [List.append_cons] at hx
  have hlow := ts64_spec (UInt64.ofNat n <<< 3) hx (by simp)
  rw [List.length_append, List.length_append, List.length_cons, List.length_replicate,
    List.length_singleton, hlength, show r + (zeros + 7 + 1) + 1 = k - 8 by omega] at hlow
  refine hlow.mono fun x hx => ⟨List.replicate (256 - k) 0, ?_⟩
  rw [hx, Sha512.padding, hr, hzeros, toBytes_bits hn, List.replicate_add]
  simp

/-- **The hash** is SHA-512 of the message, whatever stands behind it in memory. -/
theorem cryptoHash_spec {m : List UInt8} {n : ℕ} (h : n ≤ m.length) (hn : n < 2 ^ 64) :
    Ensures (cryptoHash m n) fun d => d.toList = Sha512.hash (m.take n) := by
  obtain ⟨r, hr⟩ : ∃ r, n % 128 = r := ⟨_, rfl⟩
  have hand : n &&& 127 = r := by
    rw [← hr]
    exact Nat.and_two_pow_sub_one_eq_mod n 7
  obtain ⟨last, hlast⟩ : ∃ last, (m.take n).drop (n - r) = last := ⟨_, rfl⟩
  have htake : (m.take n).length = n := by
    rw [List.length_take, min_eq_left h]
  have hlength : (last ++ Sha512.padding n).length = paddedLength r := by
    rw [List.length_append, Sha512.length_padding, ← hlast, List.length_drop, htake, paddedLength]
    split <;> omega
  unfold cryptoHash
  refine (cryptoHashblocks_spec iv_eq h).bind fun d hd => ?_
  simp only [hand]
  refine (paddedBuffer_spec h hn hr).bind fun x hx => ?_
  obtain ⟨rest, hx⟩ := hx
  rw [hlast] at hx
  have hxlength : paddedLength r ≤ x.toList.length := by
    rw [Vector.length_toList]
    exact Nat.sub_le _ _
  refine (cryptoHashblocks_spec hd hxlength).mono fun d' hd' => ?_
  -- the message's own blocks, and those with padding
  have hpad : Sha512.pad (m.take n) = (m.take n).take (n - r) ++ (last ++ Sha512.padding n) := by
    rw [Sha512.pad, htake, ← hlast, ← List.append_assoc, List.take_append_drop]
  have hfirst : ((m.take n).take (n - r)).length = 128 * (n / 128) := by
    rw [List.length_take, htake, min_eq_left (Nat.sub_le _ _)]
    omega
  have hblocks : (Sha512.pad (m.take n)).length / 128 = n / 128 + paddedLength r / 128 := by
    rw [hpad, List.length_append, hfirst, hlength, Nat.mul_add_div (by norm_num)]
  rw [hd', Sha512.hash, hblocks, Sha512.hashes_add]
  congr 1
  have hown : Sha512.hashes (fun i => wordsAt m (128 * i)) Sha512.initialHash (n / 128) =
      Sha512.hashes (Sha512.blockWords (Sha512.pad (m.take n))) Sha512.initialHash (n / 128) := by
    refine Sha512.hashes_congr _ fun i hi t ht => ?_
    have hm : m = m.take n ++ m.drop n := (List.take_append_drop n m).symm
    rw [Sha512.blockWords, Sha512.pad, Sha512.wordAt_append_left _ (by omega), wordsAt]
    conv_lhs => rw [hm, Sha512.wordAt_append_left _ (by omega)]
  rw [hown]
  refine Sha512.hashes_congr _ fun i hi t ht => ?_
  rw [Sha512.blockWords, hpad, show 128 * (n / 128 + i) + 8 * t =
    ((m.take n).take (n - r)).length + (128 * i + 8 * t) by omega, Sha512.wordAt_append_right,
    wordsAt, hx, Sha512.wordAt_append_left _ (by omega)]

/-- **The hash of a message** is its SHA-512, and reads nothing of what lies behind the message. -/
theorem cryptoHash_append {m : List UInt8} (h : m.length < 2 ^ 64) (tail : List UInt8) :
    ∃ d, cryptoHash (m ++ tail) m.length = some d ∧ d.toList = Sha512.hash m := by
  have hle : m.length ≤ (m ++ tail).length := by
    rw [List.length_append]
    exact Nat.le_add_right _ _
  obtain ⟨d, hd, hhash⟩ := cryptoHash_spec hle h
  exact ⟨d, hd, by rw [hhash, List.take_left]⟩

/-- A message of more than a block, with three bytes behind it. -/
theorem cryptoHash_append_letters : (List.replicate 200 (0x61 : UInt8)).length < 2 ^ 64 ∧
    ∃ d, cryptoHash (List.replicate 200 0x61 ++ [1, 2, 3])
        (List.replicate 200 (0x61 : UInt8)).length = some d ∧
      d.toList = Sha512.hash (List.replicate 200 0x61) := by
  have hlength : (List.replicate 200 (0x61 : UInt8)).length < 2 ^ 64 := by
    rw [List.length_replicate]
    norm_num
  exact ⟨hlength, cryptoHash_append hlength [1, 2, 3]⟩

end MithAtomas.TweetNacl
