import Mathlib

/-!
# The SHA-512 hash

FIPS 180-4, of messages of whole bytes: the schedule with all of its words (§6.4.2), the working
variables by their names, the padding of §5.1.2, and the constants of §4.2.3 and §5.3.5 as what they
are, the roots of the first primes. `roundConstant_eq` and `initialHash_eq` say how a table of them
is checked.

A message is hashed block by block, and what the blocks are does not matter: `hashes_add` splits the
blocks in two.
-/

namespace Sha512

abbrev Word := UInt64

/-! ### Functions on words -/

/-- `ROTR` -/
def rotr (c x : Word) : Word :=
  x >>> c ||| x <<< (64 - c)

def ch (x y z : Word) : Word :=
  (x &&& y) ^^^ (~~~x &&& z)

def maj (x y z : Word) : Word :=
  (x &&& y) ^^^ (x &&& z) ^^^ (y &&& z)

def upperSigma0 (x : Word) : Word :=
  rotr 28 x ^^^ rotr 34 x ^^^ rotr 39 x

def upperSigma1 (x : Word) : Word :=
  rotr 14 x ^^^ rotr 18 x ^^^ rotr 41 x

def lowerSigma0 (x : Word) : Word :=
  rotr 1 x ^^^ rotr 8 x ^^^ x >>> 7

def lowerSigma1 (x : Word) : Word :=
  rotr 19 x ^^^ rotr 61 x ^^^ x >>> 6

/-! ### Constants -/

/-- The first 64 bits of the fractional part of a root of prime `i`. -/
noncomputable def rootBits (n i : ℕ) : Word :=
  UInt64.ofNat (Nat.nthRoot n (Nat.nth Nat.Prime i * 2 ^ (64 * n)))

/-- §4.2.3 -/
noncomputable def roundConstant (t : ℕ) : Word :=
  rootBits 3 t

/-- Division by what is not larger than the root. -/
def isPrime (n : ℕ) : Bool :=
  decide (2 ≤ n ∧ ∀ d ∈ List.range 21, 2 ≤ d → d * d ≤ n → n % d ≠ 0)

theorem isPrime_iff {n : ℕ} (h : n < 441) : isPrime n = true ↔ n.Prime := by
  rw [Nat.prime_def_le_sqrt, isPrime, decide_eq_true_iff]
  refine and_congr_right fun _ => ⟨fun hn d hd hle hdvd => ?_, fun hn d _ hd hle hdvd => ?_⟩
  · have hsq : d * d ≤ n := Nat.le_sqrt.mp hle
    refine hn d (List.mem_range.mpr ?_) hd hsq (Nat.mod_eq_zero_of_dvd hdvd)
    nlinarith
  · exact hn d hd (Nat.le_sqrt.mpr hle) (Nat.dvd_of_mod_eq_zero hdvd)

/-- **Counting the primes** below a prime. -/
theorem nth_prime_of_count {i p : ℕ} (h : p < 441) (hp : isPrime p = true)
    (hcount : Nat.count (fun n => isPrime n = true) p = i) : Nat.nth Nat.Prime i = p := by
  have hsame : Nat.count Nat.Prime p = Nat.count (fun n => isPrime n = true) p := by
    rw [Nat.count_eq_card_filter_range, Nat.count_eq_card_filter_range]
    congr 1
    refine Finset.filter_congr fun n hn => (isPrime_iff ?_).symm
    exact (Finset.mem_range.mp hn).trans h
  rw [← hcount, ← hsame]
  exact Nat.nth_count ((isPrime_iff h).mp hp)

/-- A table's entry, checked: the power of it, under some whole number, is what is under the root,
and that of the next is more. -/
theorem rootBits_eq {n i p m : ℕ} {w : Word} (hp : Nat.nth Nat.Prime i = p)
    (hlow : (m * 2 ^ 64 + w.toNat) ^ n ≤ p * 2 ^ (64 * n))
    (hhigh : p * 2 ^ (64 * n) < (m * 2 ^ 64 + w.toNat + 1) ^ n) : rootBits n i = w := by
  rw [rootBits, hp, Nat.nthRoot_eq_of_le_of_lt hlow hhigh]
  apply UInt64.toNat_inj.mp
  rw [UInt64.toNat_ofNat', Nat.mul_add_mod', Nat.mod_eq_of_lt w.toNat_lt]

/-! ### The schedule -/

/-- The words of a block, and those that come from earlier ones. -/
def schedule (M : ℕ → Word) (t : ℕ) : Word :=
  if t < 16 then M t
  else lowerSigma1 (schedule M (t - 2)) + schedule M (t - 7) +
    lowerSigma0 (schedule M (t - 15)) + schedule M (t - 16)

theorem schedule_of_lt (M : ℕ → Word) {t : ℕ} (h : t < 16) : schedule M t = M t := by
  rw [schedule, if_pos h]

theorem schedule_add (M : ℕ → Word) (t : ℕ) : schedule M (t + 16) =
    lowerSigma1 (schedule M (t + 14)) + schedule M (t + 9) +
      lowerSigma0 (schedule M (t + 1)) + schedule M t := by
  rw [schedule, if_neg (by omega)]
  rfl

/-! ### Compression -/

/-- The working variables. -/
@[ext] structure Working where
  a : Word
  b : Word
  c : Word
  d : Word
  e : Word
  f : Word
  g : Word
  h : Word

/-- `T₁` -/
def Working.t1 (s : Working) (k w : Word) : Word :=
  s.h + upperSigma1 s.e + ch s.e s.f s.g + k + w

/-- `T₂` -/
def Working.t2 (s : Working) : Word :=
  upperSigma0 s.a + maj s.a s.b s.c

def Working.round (s : Working) (k w : Word) : Working :=
  ⟨s.t1 k w + s.t2, s.a, s.b, s.c, s.d + s.t1 k w, s.e, s.f, s.g⟩

/-- The first `t` rounds. -/
noncomputable def Working.rounds (s : Working) (W : ℕ → Word) : ℕ → Working
  | 0 => s
  | t + 1 => (s.rounds W t).round (roundConstant t) (W t)

def Working.add (s t : Working) : Working :=
  ⟨s.a + t.a, s.b + t.b, s.c + t.c, s.d + t.d, s.e + t.e, s.f + t.f, s.g + t.g, s.h + t.h⟩

/-- One block. -/
noncomputable def compress (M : ℕ → Word) (H : Working) : Working :=
  (H.rounds (schedule M) 80).add H

/-- §5.3.5 -/
noncomputable def initialHash : Working :=
  ⟨rootBits 2 0, rootBits 2 1, rootBits 2 2, rootBits 2 3, rootBits 2 4, rootBits 2 5,
    rootBits 2 6, rootBits 2 7⟩

/-- The hash value after `n` blocks, the words of block `i` being `M i`. -/
noncomputable def hashes (M : ℕ → ℕ → Word) (H : Working) : ℕ → Working
  | 0 => H
  | n + 1 => compress (M n) (hashes M H n)

theorem hashes_add (M : ℕ → ℕ → Word) (H : Working) (m n : ℕ) :
    hashes M H (m + n) = hashes (fun i => M (m + i)) (hashes M H m) n := by
  induction n with
  | zero => rfl
  | succ n ih =>
    show compress (M (m + n)) (hashes M H (m + n)) = _
    rw [ih]
    rfl

theorem schedule_congr {M M' : ℕ → Word} (h : ∀ t < 16, M t = M' t) (t : ℕ) :
    schedule M t = schedule M' t := by
  induction t using Nat.strong_induction_on with
  | _ t ih =>
    by_cases ht : t < 16
    · rw [schedule_of_lt M ht, schedule_of_lt M' ht, h t ht]
    · obtain ⟨s, rfl⟩ : ∃ s, t = s + 16 := ⟨t - 16, by omega⟩
      rw [schedule_add, schedule_add, ih _ (by omega), ih _ (by omega), ih _ (by omega),
        ih _ (by omega)]

theorem hashes_congr {M M' : ℕ → ℕ → Word} (H : Working) {n : ℕ}
    (h : ∀ i < n, ∀ t < 16, M i t = M' i t) : hashes M H n = hashes M' H n := by
  induction n with
  | zero => rfl
  | succ n ih =>
    rw [hashes, hashes, ih fun i hi => h i (by omega), compress, compress,
      funext (schedule_congr (h n (by omega)))]

/-! ### Messages -/

/-- The number with the digits `l`, the greatest first. -/
def ofBytes (l : List UInt8) : ℕ :=
  l.foldl (fun n b => 256 * n + b.toNat) 0

/-- The `k` last digits of `x`, the greatest first. -/
def toBytes (k x : ℕ) : List UInt8 :=
  List.ofFn fun i : Fin k => UInt8.ofNat (x / 256 ^ (k - 1 - i))

/-- The word at byte `p`. -/
def wordAt (m : List UInt8) (p : ℕ) : Word :=
  UInt64.ofNat (ofBytes ((m.drop p).take 8))

/-- Word `t` of block `i`. -/
def blockWords (m : List UInt8) (i t : ℕ) : Word :=
  wordAt m (128 * i + 8 * t)

/-- §5.1.2: a one, zeros, and the length in bits, up to the end of a block. -/
def padding (n : ℕ) : List UInt8 :=
  0x80 :: (List.replicate ((239 - n % 128) % 128) 0 ++ toBytes 16 (8 * n))

def pad (m : List UInt8) : List UInt8 :=
  m ++ padding m.length

/-- Words, one after another. -/
def wordBytes (ws : List Word) : List UInt8 :=
  ws.flatMap fun w => toBytes 8 w.toNat

/-- The bytes of the hash value. -/
def Working.toBytes (H : Working) : List UInt8 :=
  wordBytes [H.a, H.b, H.c, H.d, H.e, H.f, H.g, H.h]

/-- **The hash** of a message. -/
noncomputable def hash (m : List UInt8) : List UInt8 :=
  (hashes (blockWords (pad m)) initialHash ((pad m).length / 128)).toBytes

@[simp] theorem length_toBytes (k x : ℕ) : (toBytes k x).length = k := by
  rw [toBytes, List.length_ofFn]

theorem getElem_toBytes {k x i : ℕ} (h : i < (toBytes k x).length) :
    (toBytes k x)[i] = UInt8.ofNat (x / 256 ^ (k - 1 - i)) :=
  List.getElem_ofFn h

theorem ofBytes_append (l : List UInt8) (b : UInt8) :
    ofBytes (l ++ [b]) = 256 * ofBytes l + b.toNat := by
  unfold ofBytes
  rw [List.foldl_append]
  rfl

theorem toBytes_succ (k x : ℕ) : toBytes (k + 1) x = toBytes k (x / 256) ++ [UInt8.ofNat x] := by
  unfold toBytes
  rw [List.ofFn_succ_last]
  congr 1
  · congr 1
    funext i
    show UInt8.ofNat (x / 256 ^ (k + 1 - 1 - i.val)) = UInt8.ofNat (x / 256 / 256 ^ (k - 1 - i.val))
    rw [Nat.div_div_eq_div_mul, ← pow_succ', show k - 1 - i.val + 1 = k + 1 - 1 - i.val by omega]
  · simp

/-- High digits and low ones. -/
theorem toBytes_add (j k x : ℕ) : toBytes (j + k) x = toBytes j (x / 256 ^ k) ++ toBytes k x := by
  induction k generalizing x with
  | zero => simp [toBytes]
  | succ k ih =>
    rw [← Nat.add_assoc, toBytes_succ, ih, toBytes_succ k, List.append_assoc,
      Nat.div_div_eq_div_mul, ← pow_succ']

theorem toBytes_mod {k n : ℕ} (h : k ≤ n) (x : ℕ) : toBytes k (x % 256 ^ n) = toBytes k x := by
  induction k generalizing x n with
  | zero => rfl
  | succ k ih =>
    obtain ⟨n, rfl⟩ : ∃ m, n = m + 1 := ⟨n - 1, by omega⟩
    have hdiv : x % 256 ^ (n + 1) / 256 = x / 256 % 256 ^ n := by
      rw [pow_succ', Nat.mod_mul_right_div_self]
    have hlast : UInt8.ofNat (x % 256 ^ (n + 1)) = UInt8.ofNat x := by
      apply UInt8.toNat_inj.mp
      rw [UInt8.toNat_ofNat', UInt8.toNat_ofNat', pow_succ']
      exact Nat.mod_mul_right_mod _ _ _
    rw [toBytes_succ, toBytes_succ, hdiv, ih (by omega), hlast]

theorem ofBytes_toBytes (k x : ℕ) : ofBytes (toBytes k x) = x % 256 ^ k := by
  induction k generalizing x with
  | zero => simp [ofBytes, toBytes, Nat.mod_one]
  | succ k ih =>
    rw [toBytes_succ, ofBytes_append, ih, UInt8.toNat_ofNat', pow_succ' 256 k,
      Nat.mod_mul (x := x) (a := 256), Nat.add_comm]

theorem length_padding (n : ℕ) : (padding n).length = (239 - n % 128) % 128 + 17 := by
  rw [padding, List.length_cons, List.length_append, List.length_replicate, length_toBytes]

/-- Words inside a part of a message. -/
theorem wordAt_append_left {l : List UInt8} (l' : List UInt8) {p : ℕ} (h : p + 8 ≤ l.length) :
    wordAt (l ++ l') p = wordAt l p := by
  rw [wordAt, wordAt, List.drop_append_of_le_length (by omega), List.take_append_of_le_length]
  rw [List.length_drop]
  omega

theorem wordAt_append_right (l l' : List UInt8) (p : ℕ) :
    wordAt (l ++ l') (l.length + p) = wordAt l' p := by
  rw [wordAt, wordAt, List.drop_append, List.drop_of_length_le (by omega), List.nil_append,
    Nat.add_sub_cancel_left]

@[simp] theorem length_wordBytes (ws : List Word) : (wordBytes ws).length = 8 * ws.length := by
  induction ws with
  | nil => rfl
  | cons w ws ih =>
    rw [wordBytes, List.flatMap_cons, List.length_append, length_toBytes, List.length_cons]
    change 8 + (wordBytes ws).length = _
    rw [ih, Nat.mul_succ, Nat.add_comm]

theorem wordBytes_append (ws : List Word) (w : Word) :
    wordBytes (ws ++ [w]) = wordBytes ws ++ toBytes 8 w.toNat := by
  unfold wordBytes
  rw [List.flatMap_append, List.flatMap_singleton]

@[simp] theorem length_hash (m : List UInt8) : (hash m).length = 64 := by
  rw [hash, Working.toBytes, length_wordBytes]
  rfl

/-- **Reading** a word back. -/
theorem wordAt_wordBytes {ws : List Word} {i : ℕ} (h : i < ws.length) :
    wordAt (wordBytes ws) (8 * i) = ws[i] := by
  induction ws generalizing i with
  | nil => exact absurd h (Nat.not_lt_zero i)
  | cons w ws ih =>
    have hcons : wordBytes (w :: ws) = toBytes 8 w.toNat ++ wordBytes ws := List.flatMap_cons
    rw [hcons]
    cases i with
    | zero =>
      rw [wordAt_append_left _ (by rw [length_toBytes]), wordAt, Nat.mul_zero, List.drop_zero,
        List.take_of_length_le (by rw [length_toBytes]), ofBytes_toBytes]
      apply UInt64.toNat_inj.mp
      rw [UInt64.toNat_ofNat', show 256 ^ 8 = 2 ^ 64 by norm_num, Nat.mod_mod,
        Nat.mod_eq_of_lt w.toNat_lt]
      rfl
    | succ i =>
      have hskip := wordAt_append_right (toBytes 8 w.toNat) (wordBytes ws) (8 * i)
      rw [length_toBytes] at hskip
      rw [Nat.mul_succ, Nat.add_comm, hskip]
      exact ih _

end Sha512
