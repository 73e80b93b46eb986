import MithAtomas.Framework.ByteCodec
import MithAtomas.Framework.ChaCha20
import MithAtomas.Framework.VectorLoop

/-!
# The random source

`src/identity/chacha20.cpp`: `chacha20_block` on 16 words in an array, and `ChaCha20Csprng`, which
deals its keystream out and keeps what is left of the last block for the next call.

`chacha20Block_eq` is that the words in the array do what the rounds of the specification do to its
matrix. `Reads s p` is the invariant of the source, after `p` bytes; `fill_spec` is one call, and
`csprng_one_keystream` any number of calls.
-/

namespace MithAtomas

open BlockStream VectorLoop

/-! ### The block function -/

def CHACHA_CONST : Vector UInt32 4 :=
  #v[0x61707865, 0x3320646e, 0x79622d32, 0x6b206574]

def rotl32 (x n : UInt32) : UInt32 :=
  (x <<< n) ||| (x >>> (32 - n))

/-- `load_le32(p + offset)` -/
def loadLe32 {n : ℕ} (p : Vector UInt8 n) (offset : ℕ) : UInt32 :=
  ByteCodec.getU32 (p.toList.drop offset)

/-- `store_le32` -/
def storeLe32 (v : UInt32) : Vector UInt8 4 :=
  #v[v.toUInt8, (v >>> 8).toUInt8, (v >>> 16).toUInt8, (v >>> 24).toUInt8]

/-- `quarter_round` -/
def quarterRound (a b c d : UInt32) : UInt32 × UInt32 × UInt32 × UInt32 :=
  -- line by line as in the source
  let a := a + b; let d := d ^^^ a; let d := rotl32 d 16
  let c := c + d; let b := b ^^^ c; let b := rotl32 b 12
  let a := a + b; let d := d ^^^ a; let d := rotl32 d 8
  let c := c + d; let b := b ^^^ c; let b := rotl32 b 7
  (a, b, c, d)

/-- `quarter_round(w[a], w[b], w[c], w[d])` -/
def quarterRoundAt {n : ℕ} (w : Vector UInt32 n) (a b c d : Fin n) : Vector UInt32 n :=
  let q := quarterRound (w.get a) (w.get b) (w.get c) (w.get d)
  (((w.set a q.1 a.isLt).set b q.2.1 b.isLt).set c q.2.2.1 c.isLt).set d q.2.2.2 d.isLt

section Rounds

/-- The words have indices. -/
local instance neZero_words : NeZero 16 := ⟨by decide⟩

/-- Columns -/
def columns (w : Vector UInt32 16) : Vector UInt32 16 :=
  let w := quarterRoundAt w 0 4 8 12
  let w := quarterRoundAt w 1 5 9 13
  let w := quarterRoundAt w 2 6 10 14
  quarterRoundAt w 3 7 11 15

/-- Diagonals -/
def diagonals (w : Vector UInt32 16) : Vector UInt32 16 :=
  let w := quarterRoundAt w 0 5 10 15
  let w := quarterRoundAt w 1 6 11 12
  let w := quarterRoundAt w 2 7 8 13
  quarterRoundAt w 3 4 9 14

end Rounds

/-- The words before the rounds. -/
def initialWords (key : Vector UInt8 32) (counter : UInt32) (nonce : Vector UInt8 12) :
    Vector UInt32 16 :=
  #v[CHACHA_CONST[0], CHACHA_CONST[1], CHACHA_CONST[2], CHACHA_CONST[3],
    loadLe32 key 0, loadLe32 key 4, loadLe32 key 8, loadLe32 key 12,
    loadLe32 key 16, loadLe32 key 20, loadLe32 key 24, loadLe32 key 28,
    counter, loadLe32 nonce 0, loadLe32 nonce 4, loadLe32 nonce 8]

/-- `chacha20_block` -/
def chacha20Block (key : Vector UInt8 32) (counter : UInt32) (nonce : Vector UInt8 12) :
    Vector UInt8 64 :=
  let s := initialWords key counter nonce
  let w := (List.range 10).foldl (fun w _ => diagonals (columns w)) s
  (Vector.ofFn fun i : Fin 16 => storeLe32 (w.get i + s.get i)).flatten

/-! ### The source -/

structure ChaCha20Csprng where
  key : Vector UInt8 32 := Vector.replicate 32 0
  nonce : Vector UInt8 12 := Vector.replicate 12 0
  counter : UInt32 := 0
  block : Vector UInt8 64 := Vector.replicate 64 0
  blockOffset : ℕ := 64
  deriving DecidableEq, Repr

namespace ChaCha20Csprng

/-- `init_` -/
def init (s : ChaCha20Csprng) (key : Vector UInt8 32) (nonce : Vector UInt8 12) : ChaCha20Csprng :=
  { s with key, nonce, counter := 0, blockOffset := 64 }

/-- The constructor with an explicit seed. -/
def ofSeed (key : Vector UInt8 32) (nonce : Vector UInt8 12) : ChaCha20Csprng :=
  init {} key nonce

/-- The next block, at the head of the loop of `fill`. -/
def refill (s : ChaCha20Csprng) : ChaCha20Csprng :=
  if 64 ≤ s.blockOffset then
    { s with
      block := chacha20Block s.key s.counter s.nonce
      counter := s.counter + 1
      blockOffset := 0 }
  else s

theorem blockOffset_refill (s : ChaCha20Csprng) : s.refill.blockOffset < 64 := by
  unfold refill
  split
  · exact Nat.zero_lt_succ 63
  · omega

/-- `fill`, with the bytes that it puts into `out`. -/
def fill (s : ChaCha20Csprng) (n : ℕ) : List UInt8 × ChaCha20Csprng :=
  if _hn : n = 0 then ([], s)
  else
    have _hoffset := s.blockOffset_refill
    let s := s.refill
    let take := min n (64 - s.blockOffset)
    let out := (s.block.toList.drop s.blockOffset).take take
    let (rest, s) := fill { s with blockOffset := s.blockOffset + take } (n - take)
    (out ++ rest, s)
termination_by n

/-- One call for each of the sizes, with the bytes of each. -/
def fills (s : ChaCha20Csprng) : List ℕ → List (List UInt8) × ChaCha20Csprng
  | [] => ([], s)
  | n :: ns =>
    let (out, s) := s.fill n
    let (outs, s) := fills s ns
    (out :: outs, s)

end ChaCha20Csprng

/-! ### The words are the matrix -/

/-- The matrix whose rows are in the array one behind the other. -/
def toMatrix (w : Vector UInt32 16) : ChaCha20.State :=
  fun r c => (w.get ⟨4 * r + c, by omega⟩).toBitVec

theorem quarterRound_eq (a b c d : UInt32) :
    ChaCha20.quarterRound ![a.toBitVec, b.toBitVec, c.toBitVec, d.toBitVec] =
      let q := quarterRound a b c d
      ![q.1.toBitVec, q.2.1.toBitVec, q.2.2.1.toBitVec, q.2.2.2.toBitVec] := rfl

/-- A quarter round in the array is one on its four words. -/
theorem get_quarterRoundAt {n : ℕ} (w : Vector UInt32 n) (a b c d j : Fin n) :
    (quarterRoundAt w a b c d).get j =
      let q := quarterRound (w.get a) (w.get b) (w.get c) (w.get d)
      if j = d then q.2.2.2 else if j = c then q.2.2.1 else if j = b then q.2.1
      else if j = a then q.1 else w.get j := by
  simp only [quarterRoundAt, get_set]

theorem toMatrix_columns (w : Vector UInt32 16) :
    toMatrix (columns w) = ChaCha20.columnRound (toMatrix w) := by
  funext r c
  rw [ChaCha20.columnRound_apply]
  simp only [toMatrix, quarterRound_eq, columns, get_quarterRoundAt]
  -- each entry is written by one quarter round, and the others leave it
  fin_cases r <;> fin_cases c <;> rfl

theorem toMatrix_diagonals (w : Vector UInt32 16) :
    toMatrix (diagonals w) = ChaCha20.diagonalRound (toMatrix w) := by
  funext r c
  rw [ChaCha20.diagonalRound_apply]
  simp only [toMatrix, quarterRound_eq, diagonals, get_quarterRoundAt]
  fin_cases r <;> fin_cases c <;> rfl

theorem toBitVec_loadLe32 {n p : ℕ} (v : Vector UInt8 n) (h : p + 3 < n) :
    (loadLe32 v p).toBitVec = ChaCha20.word ![v[p], v[p + 1], v[p + 2], v[p + 3]] := by
  have hdrop : v.toList.drop p
      = v[p] :: v[p + 1] :: v[p + 2] :: v[p + 3] :: v.toList.drop (p + 4) := by
    have hlength := v.length_toList
    rw [List.drop_eq_getElem_cons (by omega), List.drop_eq_getElem_cons (by omega),
      List.drop_eq_getElem_cons (by omega), List.drop_eq_getElem_cons (by omega)]
    simp only [Vector.getElem_toList]
  apply BitVec.eq_of_toNat_eq
  rw [UInt32.toNat_toBitVec, loadLe32, hdrop, ByteCodec.toNat_getU32, ChaCha20.word,
    BitVec.toNat_ofNat]
  have h₀ := v[p].toNat_lt
  have h₁ := v[p + 1].toNat_lt
  have h₂ := v[p + 2].toNat_lt
  have h₃ := v[p + 3].toNat_lt
  exact (Nat.mod_eq_of_lt (by simp; omega)).symm

theorem toMatrix_initialWords (key : Vector UInt8 32) (counter : UInt32) (nonce : Vector UInt8 12) :
    toMatrix (initialWords key counter nonce) =
      ChaCha20.initialState key.get counter.toBitVec nonce.get := by
  funext r c
  fin_cases r <;> fin_cases c
  all_goals first | rfl | exact toBitVec_loadLe32 _ (by decide)

theorem get_storeLe32 (v : UInt32) (i : Fin 4) :
    (storeLe32 v).get i = ChaCha20.byte v.toBitVec i := by
  -- only the low byte of the shifted word is kept
  have hbyte : ∀ k : UInt32, k.toNat < 32 →
      (v >>> k).toUInt8 = UInt8.ofNat (v.toNat / 2 ^ k.toNat) := by
    intro k hk
    apply UInt8.toNat_inj.mp
    rw [UInt32.toNat_toUInt8, UInt32.toNat_shiftRight, Nat.mod_eq_of_lt hk,
      Nat.shiftRight_eq_div_pow]
    rfl
  fin_cases i
  · apply UInt8.toNat_inj.mp
    show v.toUInt8.toNat = (v.toNat / 2 ^ 0) % 2 ^ 8
    rw [UInt32.toNat_toUInt8, pow_zero, Nat.div_one]
  · exact hbyte 8 (by decide)
  · exact hbyte 16 (by decide)
  · exact hbyte 24 (by decide)

/-- **The block function** is the one of the specification. -/
theorem chacha20Block_eq (key : Vector UInt8 32) (c : ℕ) (nonce : Vector UInt8 12) :
    (chacha20Block key (UInt32.ofNat c) nonce).get = ChaCha20.block key.get nonce.get c := by
  let s := initialWords key (UInt32.ofNat c) nonce
  have hs : toMatrix s = ChaCha20.initialState key.get (BitVec.ofNat 32 c) nonce.get :=
    toMatrix_initialWords key _ nonce
  -- the ten pairs of rounds, in the array and in the matrix
  have hrounds : ∀ n w, toMatrix ((List.range n).foldl (fun w _ => diagonals (columns w)) w) =
      ChaCha20.innerBlock^[n] (toMatrix w) := by
    intro n w
    induction n with
    | zero => rfl
    | succ n ih =>
      rw [List.range_succ, List.foldl_append, List.foldl_cons, List.foldl_nil, toMatrix_diagonals,
        toMatrix_columns, ih, Function.iterate_succ_apply']
      rfl
  let w := (List.range 10).foldl (fun w _ => diagonals (columns w)) s
  have hw : ∀ r c' : Fin 4, (w.get ⟨4 * r + c', by omega⟩ + s.get ⟨4 * r + c', by omega⟩).toBitVec =
      ChaCha20.finalState (ChaCha20.initialState key.get (BitVec.ofNat 32 c) nonce.get) r c' := by
    intro r c'
    rw [UInt32.toBitVec_add]
    show toMatrix w r c' + toMatrix s r c' = _
    rw [hrounds 10 s, hs]
    rfl
  funext i
  -- the word of byte `i`, by its row and its column
  have hword : (⟨i / 4, by omega⟩ : Fin 16) = ⟨4 * (i / 16) + i / 4 % 4, by omega⟩ :=
    Fin.ext (show i.val / 4 = 4 * (i.val / 16) + i.val / 4 % 4 by omega)
  calc (chacha20Block key (UInt32.ofNat c) nonce).get i
      = (storeLe32 (w.get ⟨i / 4, by omega⟩ + s.get ⟨i / 4, by omega⟩)).get ⟨i % 4, by omega⟩ := by
        show (Vector.ofFn fun j : Fin 16 => storeLe32 (w.get j + s.get j)).flatten[i.val] = _
        rw [Vector.getElem_flatten, Vector.getElem_ofFn]
        rfl
    _ = ChaCha20.block key.get nonce.get c i := by
        rw [get_storeLe32, hword, hw ⟨i / 16, by omega⟩ ⟨i / 4 % 4, by omega⟩]
        rfl

/-- The vector of the standard, §2.3.2. -/
example : (chacha20Block (Vector.ofFn fun i => UInt8.ofNat i) 1
      #v[0, 0, 0, 9, 0, 0, 0, 0x4a, 0, 0, 0, 0]).toList =
    [0x10, 0xf1, 0xe7, 0xe4, 0xd1, 0x3b, 0x59, 0x15, 0x50, 0x0f, 0xdd, 0x1f,
      0xa3, 0x20, 0x71, 0xc4, 0xc7, 0xd1, 0xf4, 0xc7, 0x33, 0xc0, 0x68, 0x03,
      0x04, 0x22, 0xaa, 0x9a, 0xc3, 0xd4, 0x6c, 0x4e, 0xd2, 0x82, 0x64, 0x46,
      0x07, 0x9f, 0xaa, 0x09, 0x14, 0xc2, 0xd7, 0x05, 0xd9, 0x8b, 0x02, 0xa2,
      0xb5, 0x12, 0x9c, 0xd1, 0xde, 0x16, 0x4e, 0xb9, 0xcb, 0xd0, 0x83, 0xe8,
      0xa2, 0x50, 0x3c, 0x4e] := by
  decide +kernel

/-! ### The stream -/

namespace ChaCha20Csprng

/-- `p` bytes have been dealt, of a keystream of which `used` blocks have been made. -/
structure Reads (key : Vector UInt8 32) (nonce : Vector UInt8 12) (p used : ℕ)
    (s : ChaCha20Csprng) : Prop where
  key_eq : s.key = key
  nonce_eq : s.nonce = nonce
  counter_eq : s.counter = UInt32.ofNat used
  offset_le : s.blockOffset ≤ 64
  position : p + 64 = 64 * used + s.blockOffset
  block_eq : s.blockOffset < 64 → s.block = chacha20Block key (UInt32.ofNat (used - 1)) nonce

variable {key : Vector UInt8 32} {nonce : Vector UInt8 12} {p used : ℕ} {s : ChaCha20Csprng}

theorem reads_ofSeed (key : Vector UInt8 32) (nonce : Vector UInt8 12) :
    Reads key nonce 0 0 (ofSeed key nonce) :=
  ⟨rfl, rfl, rfl, le_rfl, rfl, fun h => absurd h (lt_irrefl 64)⟩

/-- A new block when the last one is used up. -/
theorem Reads.refill (h : Reads key nonce p used s) : Reads key nonce p (p / 64 + 1) s.refill := by
  have hle := h.offset_le
  have hposition := h.position
  unfold ChaCha20Csprng.refill
  split
  · next hge =>
    -- all of the last block has been dealt, so `used` blocks end at `p`
    obtain rfl : used = p / 64 := by omega
    refine ⟨h.key_eq, h.nonce_eq, ?_, Nat.zero_le 64, ?_, fun _ => ?_⟩
    · -- the counter wraps as the number of blocks does
      simp only [h.counter_eq, UInt32.ofNat_add]
      rfl
    · show p + 64 = 64 * (p / 64 + 1) + 0
      omega
    · simp only [h.key_eq, h.nonce_eq, h.counter_eq, Nat.add_sub_cancel]
  · next hlt =>
    -- there are bytes left, so position `p` is in the last block
    obtain rfl : used = p / 64 + 1 := by omega
    exact h

/-- Some bytes of the block are dealt. -/
theorem Reads.advance (h : Reads key nonce p used s) (hlt : s.blockOffset < 64) {m : ℕ}
    (hm : s.blockOffset + m ≤ 64) :
    Reads key nonce (p + m) used { s with blockOffset := s.blockOffset + m } := by
  refine ⟨h.key_eq, h.nonce_eq, h.counter_eq, hm, ?_, fun _ => h.block_eq hlt⟩
  have hposition := h.position
  show p + m + 64 = 64 * used + (s.blockOffset + m)
  omega

/-- They are the next of the stream. -/
theorem Reads.take_drop (h : Reads key nonce p used s) (hlt : s.blockOffset < 64) {m : ℕ}
    (hm : s.blockOffset + m ≤ 64) : (s.block.toList.drop s.blockOffset).take m =
      segment (ChaCha20.block key.get nonce.get) p m := by
  have hposition := h.position
  have hp : p = 64 * (used - 1) + s.blockOffset := by omega
  have hblock : s.block.toList = List.ofFn (ChaCha20.block key.get nonce.get (used - 1)) := by
    rw [h.block_eq hlt, ← chacha20Block_eq]
    generalize chacha20Block key (UInt32.ofNat (used - 1)) nonce = v
    refine List.ext_getElem (by rw [Vector.length_toList, List.length_ofFn]) fun i hi hi' => ?_
    rw [List.getElem_ofFn, Vector.getElem_toList]
    rfl
  conv_rhs => rw [hp]
  rw [segment_within hm, hblock]

/-- One round of the loop, and the rest of it. -/
theorem fill_of_ne_zero {n : ℕ} (hn : n ≠ 0) {s₁ : ChaCha20Csprng} (hs₁ : s.refill = s₁) {m : ℕ}
    (hm : min n (64 - s₁.blockOffset) = m) : s.fill n =
      ((s₁.block.toList.drop s₁.blockOffset).take m ++
          (fill { s₁ with blockOffset := s₁.blockOffset + m } (n - m)).1,
        (fill { s₁ with blockOffset := s₁.blockOffset + m } (n - m)).2) := by
  subst hs₁ hm
  rw [fill, dif_neg hn]

/-- **One call** deals the next `n` bytes. -/
theorem fill_spec (h : Reads key nonce p used s) (n : ℕ) :
    (s.fill n).1 = segment (ChaCha20.block key.get nonce.get) p n ∧
      ∃ used', Reads key nonce (p + n) used' (s.fill n).2 := by
  -- on the bytes that are missing: each round deals one at least
  induction n using Nat.strong_induction_on generalizing p used s with
  | _ n ih =>
    by_cases hn : n = 0
    · subst hn
      rw [fill, dif_pos rfl]
      exact ⟨rfl, used, h⟩
    · obtain ⟨s₁, hs₁⟩ : ∃ s₁, s.refill = s₁ := ⟨_, rfl⟩
      have hoffset := hs₁ ▸ s.blockOffset_refill
      have hreads := hs₁ ▸ h.refill
      obtain ⟨m, hm⟩ : ∃ m, min n (64 - s₁.blockOffset) = m := ⟨_, rfl⟩
      have hle : m ≤ n := hm ▸ min_le_left _ _
      have hle' : m ≤ 64 - s₁.blockOffset := hm ▸ min_le_right _ _
      have hpos : 0 < m := by
        rw [← hm]
        exact lt_min (by omega) (by omega)
      rw [fill_of_ne_zero hn hs₁ hm]
      -- `m` bytes of this block, and the rest from the state behind them
      obtain ⟨hrest, used', hnext⟩ := ih (n - m) (by omega)
        (hreads.advance hoffset (m := m) (by omega))
      rw [Nat.add_assoc, Nat.add_sub_cancel' hle] at hnext
      refine ⟨?_, used', hnext⟩
      rw [hreads.take_drop hoffset (by omega), hrest, ← segment_add, Nat.add_sub_cancel' hle]

/-- **Any number of calls** deals segments, one behind the other. -/
theorem fills_spec (h : Reads key nonce p used s) (ns : List ℕ) :
    (s.fills ns).1 = segments (ChaCha20.block key.get nonce.get) p ns := by
  induction ns generalizing p used s with
  | nil => rfl
  | cons n ns ih =>
    obtain ⟨hout, used', hreads⟩ := fill_spec h n
    show (s.fill n).1 :: ((s.fill n).2.fills ns).1 = _
    rw [hout, ih hreads]
    rfl

end ChaCha20Csprng

open ChaCha20Csprng in
/-- **One keystream however it is read.** From any key and nonce, for any sizes with no more bytes
together than the counter has blocks for, each call puts out as many bytes as it was asked for, and
the outputs put together are a prefix of the keystream. -/
theorem csprng_one_keystream (key : Vector UInt8 32) (nonce : Vector UInt8 12) (sizes : List ℕ)
    (h : sizes.sum ≤ 2 ^ 38) :
    ((ofSeed key nonce).fills sizes).1.map List.length = sizes ∧
      ((ofSeed key nonce).fills sizes).1.flatten =
        (ChaCha20.keystream key.get nonce.get).take sizes.sum := by
  rw [fills_spec (reads_ofSeed key nonce)]
  refine ⟨map_length_segments 0 sizes, ?_⟩
  rw [flatten_segments]
  exact segment_zero (h.trans (by norm_num))

/-- A call for nothing, and calls across the ends of blocks. -/
theorem uneven_reads_one_keystream :
    ((ChaCha20Csprng.ofSeed (Vector.replicate 32 7) (Vector.replicate 12 11)).fills
        [50, 0, 100, 1, 300]).1.flatten =
      (ChaCha20.keystream (Vector.replicate 32 7).get (Vector.replicate 12 11).get).take 451 :=
  (csprng_one_keystream (Vector.replicate 32 7) (Vector.replicate 12 11) [50, 0, 100, 1, 300]
    (by decide)).2

end MithAtomas
