import MithAtomas.Core.Trace
import MithAtomas.Framework.ByteCodec
import MithAtomas.Framework.Fifo
import MithAtomas.Framework.Ring

/-!
# The binary trace sink

`src/core/binary_trace_sink.cpp`: a ring of frames of 256 bytes in one buffer. Only the slot to
write next and the number of frames are stored; the oldest slot is computed from them.

The buffer has `capacity * FRAME_BYTES` bytes, a product of 64 bits. `run_iff` is the result: the
sink is a queue of frames that drops the oldest, for every capacity below `2 ^ 55` and for no other.
Up to `2 ^ 56` the vector is asked for more bytes than it may ever have, and throws (`init` is
`none`); from there on the product wraps around, the buffer is empty, and the first frame is written
outside it (`emit` is `none`). `Holds` is the invariant behind it, which relates the sink to a
`Fifo` of frames.
-/

namespace MithAtomas

open ByteCodec Ring

/-! ### Frames -/

abbrev FRAME_BYTES : ℕ := 256
abbrev MAX_NAME_LEN : ℕ := 64
abbrev FIELD_BYTES : ℕ := 16
abbrev MAX_KEY_BYTES : ℕ := 6

/-- `bytes` in a field of `n` zeros. -/
def padTo (n : ℕ) (bytes : List UInt8) : List UInt8 :=
  bytes ++ List.replicate (n - bytes.length) 0

theorem length_padTo {n : ℕ} {bytes : List UInt8} (h : bytes.length ≤ n) :
    (padTo n bytes).length = n := by
  rw [padTo, List.length_append, List.length_replicate]
  omega

namespace FieldValue

/-- `TraceField::Kind`. -/
def kind : FieldValue → UInt8
  | str _ => 0
  | i64 _ => 1
  | u64 _ => 2
  | f64 _ => 3
  | boolean _ => 4

/-- The value on the wire; a string is truncated to the same eight bytes. -/
def bytes : FieldValue → List UInt8
  | str v => v.take 8
  | i64 v => putU64 v.toUInt64
  | u64 v => putU64 v
  | f64 bits => putU64 bits
  | boolean v => [if v then 1 else 0]

theorem length_bytes_le (v : FieldValue) : v.bytes.length ≤ 8 := by
  cases v with
  | str v => exact List.length_take_le 8 v
  | i64 v => exact le_of_eq (length_putU64 _)
  | u64 v => exact le_of_eq (length_putU64 v)
  | f64 bits => exact le_of_eq (length_putU64 bits)
  | boolean v => exact Nat.le_add_left 1 7

end FieldValue

/-- One field on the wire. -/
def EmitField.frameBytes (f : EmitField) : List UInt8 :=
  [f.value.kind, UInt8.ofNat (min f.key.length MAX_KEY_BYTES)] ++
    padTo MAX_KEY_BYTES (f.key.take MAX_KEY_BYTES) ++ padTo 8 f.value.bytes

theorem EmitField.length_frameBytes (f : EmitField) : f.frameBytes.length = FIELD_BYTES := by
  unfold frameBytes
  rw [List.length_append, List.length_append, length_padTo (List.length_take_le _ _),
    length_padTo f.value.length_bytes_le]
  rfl

namespace EmitCall

variable (c : EmitCall)

/-- The part of the event's name that is kept. -/
def nameRoom : ℕ :=
  min c.event.length MAX_NAME_LEN

/-- The number of fields that fit. -/
def fieldCount : ℕ :=
  min c.fields.length ((FRAME_BYTES - 12 - c.nameRoom) / FIELD_BYTES)

/-- The frame of the call, with sequence number `seq`. -/
def frame (seq : UInt64) : List UInt8 :=
  padTo FRAME_BYTES
    (putU64 seq ++ ([c.level.toUInt8, UInt8.ofNat c.fieldCount] ++
      (putU16 (UInt16.ofNat c.nameRoom) ++ (c.event.take c.nameRoom ++
        (c.fields.take c.fieldCount).flatMap EmitField.frameBytes))))

theorem length_flatMap_frameBytes (fs : List EmitField) :
    (fs.flatMap EmitField.frameBytes).length = fs.length * FIELD_BYTES := by
  induction fs with
  | nil => rfl
  | cons f fs ih =>
    rw [List.flatMap_cons, List.length_append, ih, f.length_frameBytes, List.length_cons,
      Nat.succ_mul, Nat.add_comm]

/-- **A frame has its length**: the fields that are kept fit behind the name. -/
theorem length_frame (seq : UInt64) : (c.frame seq).length = FRAME_BYTES := by
  refine length_padTo ?_
  have hname : c.nameRoom ≤ 64 := Nat.min_le_right _ _
  have hfields : c.fieldCount * 16 ≤ 256 - 12 - c.nameRoom :=
    (Nat.mul_le_mul_right _ (Nat.min_le_right _ _)).trans (Nat.div_mul_le_self _ _)
  have hevent : (c.event.take c.nameRoom).length ≤ c.nameRoom := List.length_take_le _ _
  have hkept : (c.fields.take c.fieldCount).length * 16 ≤ c.fieldCount * 16 :=
    Nat.mul_le_mul_right 16 (List.length_take_le _ _)
  simp only [List.length_append, length_putU64, length_flatMap_frameBytes]
  show 8 + (2 + (2 + ((c.event.take c.nameRoom).length
    + (c.fields.take c.fieldCount).length * 16))) ≤ 256
  omega

/-- The sequence number can be read back. -/
theorem getU64_frame (seq : UInt64) : getU64 (c.frame seq) = seq := by
  unfold frame padTo
  rw [List.append_assoc]
  exact getU64_putU64 seq _

end EmitCall

/-! ### The constructor -/

/-- The loop of `floor_pow2`; `p << 1` has 64 bits. -/
def floorPow2Loop (n p : ℕ) : ℕ :=
  if p < (p <<< 1) % 2 ^ 64 ∧ (p <<< 1) % 2 ^ 64 ≤ n then floorPow2Loop n ((p <<< 1) % 2 ^ 64)
  else p
termination_by n - p

/-- `floor_pow2`. -/
def floorPow2 (n : ℕ) : ℕ :=
  if n = 0 then 1 else floorPow2Loop n 1

theorem floorPow2Loop_spec {n : ℕ} (hn : n < 2 ^ 64) {j : ℕ} (hj : 2 ^ j ≤ n) :
    ∃ k, floorPow2Loop n (2 ^ j) = 2 ^ k ∧ 2 ^ k ≤ n ∧ n < 2 ^ (k + 1) := by
  induction hd : n - 2 ^ j using Nat.strongRecOn generalizing j with
  | ind d ih =>
    have hshift : 2 ^ j <<< 1 = 2 ^ (j + 1) := by rw [Nat.shiftLeft_eq, pow_one, pow_succ]
    have hlt : 2 ^ j < 2 ^ (j + 1) := Nat.pow_lt_pow_right (by decide) (Nat.lt_succ_self j)
    rw [floorPow2Loop, hshift]
    by_cases hnext : 2 ^ (j + 1) ≤ n
    · -- the shifted number is at most `n`, so it has not wrapped
      have hmod : 2 ^ (j + 1) % 2 ^ 64 = 2 ^ (j + 1) := Nat.mod_eq_of_lt (by omega)
      rw [hmod, if_pos ⟨hlt, hnext⟩]
      exact ih _ (by omega) hnext rfl
    · have hstop : ¬ (2 ^ j < 2 ^ (j + 1) % 2 ^ 64 ∧ 2 ^ (j + 1) % 2 ^ 64 ≤ n) := by
        rintro ⟨hgrows, hle⟩
        by_cases hwrap : j + 1 < 64
        · rw [Nat.mod_eq_of_lt (Nat.pow_lt_pow_right (by decide) hwrap)] at hle
          exact hnext hle
        · have hzero : 2 ^ (j + 1) % 2 ^ 64 = 0 :=
            Nat.mod_eq_zero_of_dvd (Nat.pow_dvd_pow 2 (by omega))
          omega
      rw [if_neg hstop]
      exact ⟨j, rfl, hj, by omega⟩

/-- **The capacity**: the given one, rounded down to a power of two, and at least one. -/
theorem floorPow2_spec {n : ℕ} (hn : n < 2 ^ 64) :
    ∃ k, floorPow2 n = 2 ^ k ∧ 2 ^ k ≤ max n 1 ∧ max n 1 < 2 ^ (k + 1) := by
  unfold floorPow2
  by_cases hzero : n = 0
  · subst hzero
    exact ⟨0, rfl, by decide, by decide⟩
  · rw [if_neg hzero, max_eq_left (Nat.pos_of_ne_zero hzero)]
    exact floorPow2Loop_spec hn (j := 0) (Nat.pos_of_ne_zero hzero)

structure BinaryTraceSink where
  buffer : List UInt8
  capacity : ℕ
  mask : ℕ
  head : ℕ
  size : ℕ
  wallSeq : UInt64
  dropped : UInt64
  totalEmits : UInt64
  deriving DecidableEq

namespace BinaryTraceSink

/-- `max_size()` of a `std::vector` of bytes. -/
abbrev MAX_BUFFER_BYTES : ℕ := 2 ^ 63 - 1

/-- `BinaryTraceSink(capacity)`. The number of bytes is a product of 64 bits; `none` if `assign`
throws `std::length_error`. -/
def init (capacity : ℕ) : Option BinaryTraceSink :=
  let slots := floorPow2 (if capacity = 0 then 1 else capacity)
  let bytes := slots * FRAME_BYTES % 2 ^ 64
  if bytes ≤ MAX_BUFFER_BYTES then
    some {
      buffer := List.replicate bytes 0
      capacity := slots
      mask := slots - 1
      head := 0
      size := 0
      wallSeq := 0
      dropped := 0
      totalEmits := 0 }
  else none

variable (s : BinaryTraceSink)

/-- `emit`; `none` if it writes outside the buffer. -/
def emit (c : EmitCall) : Option BinaryTraceSink :=
  if c.level = .off then some s
  else
    -- a full ring loses its oldest frame
    let full := s.size = s.capacity
    let start := (s.head &&& s.mask) * FRAME_BYTES % 2 ^ 64
    if start + FRAME_BYTES ≤ s.buffer.length then
      some { s with
        buffer := splice s.buffer start (c.frame s.wallSeq)
        head := (s.head + 1) &&& s.mask
        size := if full then s.size else s.size + 1
        wallSeq := s.wallSeq + 1
        dropped := if full then s.dropped + 1 else s.dropped
        totalEmits := s.totalEmits + 1 }
    else none

/-- The slot of the oldest frame. -/
def oldest : ℕ :=
  (s.head + s.capacity - s.size) % 2 ^ 64 &&& s.mask

/-- `peek_oldest`: the frame that it points at. -/
def peekOldest : Option (List UInt8) :=
  if s.size = 0 then none else some (record FRAME_BYTES s.buffer s.oldest)

/-- `pop_oldest`, with its result. -/
def popOldest : BinaryTraceSink × Bool :=
  if s.size = 0 then (s, false) else ({ s with size := s.size - 1 }, true)

/-- `clear`. -/
def clear : BinaryTraceSink :=
  { s with head := 0, size := 0 }

end BinaryTraceSink

/-! ### Runs -/

/-- A call that changes a sink. -/
inductive SinkCall where
  | emit (c : EmitCall)
  | popOldest
  | clear
  deriving DecidableEq

namespace SinkCall

def onSink (s : BinaryTraceSink) : SinkCall → Option BinaryTraceSink
  | emit c => s.emit c
  | popOldest => some s.popOldest.1
  | clear => some s.clear

/-- The same call of a queue for `N` frames that drops the oldest. Frames are numbered as they are
offered. -/
def onFifo (N : ℕ) (f : Fifo (List UInt8)) : SinkCall → Fifo (List UInt8)
  | emit c =>
    if c.level = .off then f
    else (f.push N true (c.frame (UInt64.ofNat f.offered.length))).1
  | popOldest => f.pop
  | clear => f.clear

/-- The call of `emit`, unless its level is `Off`. -/
def emits : SinkCall → Option EmitCall
  | emit c => if c.level = .off then none else some c
  | popOldest | clear => none

end SinkCall

/-- The queue after the calls. -/
def fifoRun (N : ℕ) (cs : List SinkCall) : Fifo (List UInt8) :=
  cs.foldl (SinkCall.onFifo N) {}

/-- The frames of the calls, each with its number. -/
def framesOf (cs : List SinkCall) : List (List UInt8) :=
  (cs.filterMap SinkCall.emits).mapIdx fun i c => c.frame (UInt64.ofNat i)

theorem offered_onFifo (N : ℕ) (f : Fifo (List UInt8)) (c : SinkCall) :
    (c.onFifo N f).offered =
      f.offered ++ (c.emits.map fun e => e.frame (UInt64.ofNat f.offered.length)).toList := by
  cases c with
  | emit c =>
    simp only [SinkCall.onFifo, SinkCall.emits]
    by_cases hoff : c.level = .off
    · rw [if_pos hoff, if_pos hoff]
      exact (List.append_nil _).symm
    · rw [if_neg hoff, if_neg hoff]
      exact Fifo.offered_push
  | popOldest => exact (List.append_nil _).symm
  | clear => exact (List.append_nil _).symm

/-- **What has been offered** are the frames of the calls. -/
theorem offered_fifoRun (N : ℕ) (cs : List SinkCall) : (fifoRun N cs).offered = framesOf cs := by
  induction cs using List.reverseRecOn with
  | nil => rfl
  | append_singleton cs c ih =>
    have hlast : fifoRun N (cs ++ [c]) = c.onFifo N (fifoRun N cs) := List.foldl_concat ..
    have hlength : (framesOf cs).length = (cs.filterMap SinkCall.emits).length := List.length_mapIdx
    rw [hlast, offered_onFifo, ih, hlength]
    unfold framesOf
    rw [List.filterMap_append, List.mapIdx_append]
    congr 1
    cases hc : c.emits with
    | none =>
      have hnone : [c].filterMap SinkCall.emits = [] := by rw [List.filterMap_cons_none hc]; rfl
      rw [hnone]
      rfl
    | some e =>
      have hsome : [c].filterMap SinkCall.emits = [e] := by rw [List.filterMap_cons_some hc]; rfl
      rw [hsome]
      show [e.frame _] = [e.frame (UInt64.ofNat (0 + _))]
      rw [Nat.zero_add]

namespace BinaryTraceSink

/-- The sink after the calls, unless one of them wrote outside the buffer. -/
def run (s : BinaryTraceSink) (cs : List SinkCall) : Option BinaryTraceSink :=
  cs.foldlM SinkCall.onSink s

/-- The same, of a new sink; `none` also if it is not made. -/
def runFrom (capacity : ℕ) (cs : List SinkCall) : Option BinaryTraceSink :=
  (init capacity).bind fun s => s.run cs

/-- `i` calls of `pop_oldest` in a row. -/
def popTimes (s : BinaryTraceSink) (i : ℕ) : BinaryTraceSink :=
  (fun s => s.popOldest.1)^[i] s

-- the number of slots, and of records in the buffer
instance neZeroTwoPow (k : ℕ) : NeZero (2 ^ k) := ⟨(Nat.two_pow_pos k).ne'⟩

/-- **The sink with `2 ^ k` slots, and the queue that it stands for.** -/
structure Holds (k : ℕ) (s : BinaryTraceSink) (f : Fifo (List UInt8)) : Prop where
  capacity : s.capacity = 2 ^ k
  mask : s.mask = 2 ^ k - 1
  length_buffer : s.buffer.length = 2 ^ k * FRAME_BYTES
  head_lt : s.head < 2 ^ k
  size_le : s.size ≤ 2 ^ k
  /-- the frames end before the slot to write next -/
  contents : window (slots FRAME_BYTES (2 ^ k) s.buffer) (s.head + 2 ^ k - s.size) s.size =
    f.contents
  accounts : f.Accounts
  latest : f.Latest
  wallSeq : s.wallSeq = UInt64.ofNat f.offered.length
  totalEmits : s.totalEmits = UInt64.ofNat f.offered.length
  dropped : s.dropped = UInt64.ofNat f.discarded.length

section

variable {k : ℕ} {s : BinaryTraceSink} {f : Fifo (List UInt8)}

theorem Holds.size (h : Holds k s f) : s.size = f.contents.length := by
  rw [← h.contents, length_window]

theorem Holds.head_and_mask (h : Holds k s f) : s.head &&& s.mask = s.head := by
  rw [h.mask, Nat.and_two_pow_sub_one_eq_mod, Nat.mod_eq_of_lt h.head_lt]

theorem Holds.next_and_mask (h : Holds k s f) : (s.head + 1) &&& s.mask = (s.head + 1) % 2 ^ k := by
  rw [h.mask, Nat.and_two_pow_sub_one_eq_mod]

/-- Where the next frame is written. -/
theorem Holds.start (h : Holds k s f) (hk : k < 56) :
    (s.head &&& s.mask) * FRAME_BYTES % 2 ^ 64 = s.head * FRAME_BYTES ∧
      s.head * FRAME_BYTES + FRAME_BYTES ≤ s.buffer.length := by
  have hslot : (s.head + 1) * FRAME_BYTES ≤ 2 ^ k * FRAME_BYTES :=
    Nat.mul_le_mul_right FRAME_BYTES h.head_lt
  have hfits : 2 ^ k * FRAME_BYTES ≤ 2 ^ 63 := by
    have hpow : 2 ^ k ≤ 2 ^ 55 := Nat.pow_le_pow_right (by decide) (Nat.le_of_lt_succ hk)
    calc 2 ^ k * FRAME_BYTES ≤ 2 ^ 55 * FRAME_BYTES := Nat.mul_le_mul_right _ hpow
      _ = 2 ^ 63 := by norm_num
  rw [Nat.succ_mul] at hslot
  constructor
  · rw [h.head_and_mask, Nat.mod_eq_of_lt]
    omega
  · rw [h.length_buffer]
    exact hslot

theorem window_congr {T : Type} {N : ℕ} [NeZero N] (b : Vector T N) {a a' : ℕ}
    (h : a % N = a' % N) (size : ℕ) : window b a size = window b a' size := by
  rw [← window_mod b a, h, window_mod]

/-- One more frame has been offered. -/
theorem ofNat_length_snoc (l : List (List UInt8)) (x : List UInt8) :
    UInt64.ofNat (l ++ [x]).length = UInt64.ofNat l.length + 1 := by
  rw [List.length_append, List.length_singleton, UInt64.ofNat_add]
  rfl

/-- What an emit does to the buffer and the index. -/
theorem Holds.emit_eq (h : Holds k s f) (hk : k < 56) {c : EmitCall} (hc : c.level ≠ .off) :
    s.emit c = some { s with
      buffer := splice s.buffer (s.head * FRAME_BYTES) (c.frame (UInt64.ofNat f.offered.length))
      head := (s.head + 1) % 2 ^ k
      size := if s.size = 2 ^ k then s.size else s.size + 1
      wallSeq := UInt64.ofNat f.offered.length + 1
      dropped := if s.size = 2 ^ k then s.dropped + 1 else s.dropped
      totalEmits := UInt64.ofNat f.offered.length + 1 } := by
  obtain ⟨hstart, hroom⟩ := h.start hk
  unfold BinaryTraceSink.emit
  simp only [if_neg hc, hstart, if_pos hroom, h.next_and_mask, h.capacity, h.wallSeq, h.totalEmits]

/-- The frame is stored in the slot at `head`, and in no other. -/
theorem Holds.slots_emit (h : Holds k s f) (c : EmitCall) (seq : UInt64) :
    slots FRAME_BYTES (2 ^ k) (splice s.buffer (s.head * FRAME_BYTES) (c.frame seq))
      = (slots FRAME_BYTES (2 ^ k) s.buffer).set s.head (c.frame seq) h.head_lt :=
  slots_splice h.head_lt (c.length_frame _) h.length_buffer

theorem Holds.length_emit (h : Holds k s f) (hk : k < 56) (c : EmitCall) (seq : UInt64) :
    (splice s.buffer (s.head * FRAME_BYTES) (c.frame seq)).length = 2 ^ k * FRAME_BYTES := by
  rw [length_splice (by rw [c.length_frame]; exact (h.start hk).2), h.length_buffer]

/-- An emit to a full sink writes over the oldest frame. -/
theorem Holds.emit_of_full (h : Holds k s f) (hk : k < 56) {c : EmitCall} (hc : c.level ≠ .off)
    (hfull : s.size = 2 ^ k) : ∃ s', s.emit c = some s' ∧
      Holds k s' (f.evict.accept (c.frame (UInt64.ofNat f.offered.length))) := by
  have hsize := h.size
  have hpos := Nat.two_pow_pos k
  obtain ⟨x, xs, hcontents⟩ : ∃ x xs, f.contents = x :: xs :=
    List.exists_cons_of_length_pos (by omega)
  -- the oldest frame is where the next one goes
  have holdest : window (slots FRAME_BYTES (2 ^ k) s.buffer) s.head (2 ^ k) = f.contents := by
    have hwindow := h.contents
    rwa [hfull, Nat.add_sub_cancel] at hwindow
  refine ⟨_, h.emit_eq hk hc, h.capacity, h.mask, h.length_emit hk c _, Nat.mod_lt _ hpos, ?_, ?_,
    h.accounts.evict.accept _, h.latest.evict.accept h.accounts.evict _,
    (ofNat_length_snoc _ _).symm, (ofNat_length_snoc _ _).symm, ?_⟩
  · show (if s.size = 2 ^ k then s.size else s.size + 1) ≤ 2 ^ k
    rw [if_pos hfull]
    exact h.size_le
  · simp only [if_pos hfull]
    show window (slots FRAME_BYTES (2 ^ k) _) ((s.head + 1) % 2 ^ k + 2 ^ k - s.size) s.size
      = f.contents.tail ++ [_]
    rw [h.slots_emit, hfull, Nat.add_sub_cancel, window_mod, ← holdest]
    exact window_set_full _ _ h.head_lt (Nat.mod_eq_of_lt h.head_lt).symm _
  · show (if s.size = 2 ^ k then s.dropped + 1 else s.dropped)
      = UInt64.ofNat (f.discarded ++ f.contents.take 1).length
    rw [if_pos hfull, h.dropped, hcontents]
    exact (ofNat_length_snoc _ x).symm

/-- An emit to a sink with room writes behind the latest frame. -/
theorem Holds.emit_of_room (h : Holds k s f) (hk : k < 56) {c : EmitCall} (hc : c.level ≠ .off)
    (hroom : s.size < 2 ^ k) : ∃ s', s.emit c = some s' ∧
      Holds k s' (f.accept (c.frame (UInt64.ofNat f.offered.length))) := by
  have hne : s.size ≠ 2 ^ k := hroom.ne
  refine ⟨_, h.emit_eq hk hc, h.capacity, h.mask, h.length_emit hk c _,
    Nat.mod_lt _ (Nat.two_pow_pos k), ?_, ?_, h.accounts.accept _, h.latest.accept h.accounts _,
    (ofNat_length_snoc _ _).symm, (ofNat_length_snoc _ _).symm, ?_⟩
  · show (if s.size = 2 ^ k then s.size else s.size + 1) ≤ 2 ^ k
    rw [if_neg hne]
    exact hroom
  · simp only [if_neg hne]
    show window (slots FRAME_BYTES (2 ^ k) _) ((s.head + 1) % 2 ^ k + 2 ^ k - (s.size + 1))
      (s.size + 1) = f.contents ++ [_]
    -- the frames still begin at the same slot
    have hsame : ((s.head + 1) % 2 ^ k + 2 ^ k - (s.size + 1)) % 2 ^ k
        = (s.head + 2 ^ k - s.size) % 2 ^ k := by
      rw [Nat.add_sub_assoc hroom, Nat.mod_add_mod]
      congr 1
      omega
    rw [h.slots_emit, window_congr _ hsame, ← h.contents]
    refine window_set _ _ _ h.head_lt ?_ hroom _
    rw [Nat.sub_add_cancel (by omega), Nat.add_mod_right, Nat.mod_eq_of_lt h.head_lt]
  · show (if s.size = 2 ^ k then s.dropped + 1 else s.dropped) = _
    rw [if_neg hne]
    exact h.dropped

/-- **An emit** writes the next frame, over the oldest one if there is no room. -/
theorem Holds.emit (h : Holds k s f) (hk : k < 56) {c : EmitCall} (hc : c.level ≠ .off) :
    ∃ s', s.emit c = some s' ∧
      Holds k s' (f.push (2 ^ k) true (c.frame (UInt64.ofNat f.offered.length))).1 := by
  have hsize := h.size
  rcases h.size_le.eq_or_lt with hfull | hroom
  · rw [Fifo.push_of_full (by omega)]
    exact h.emit_of_full hk hc hfull
  · rw [Fifo.push_of_room (by omega)]
    exact h.emit_of_room hk hc hroom

/-- **A pop** takes the oldest frame away. -/
theorem Holds.popOldest (h : Holds k s f) : Holds k s.popOldest.1 f.pop := by
  have hsize := h.size
  unfold BinaryTraceSink.popOldest
  by_cases hempty : s.size = 0
  · -- nothing happens
    have hcontents : f.contents = [] := by
      rw [← List.length_eq_zero_iff, ← hsize]
      exact hempty
    have hsame : f.pop = f := by
      unfold Fifo.pop
      ext1 <;> simp [hcontents]
    rw [if_pos hempty, hsame]
    exact h
  · rw [if_neg hempty]
    obtain ⟨n, hn⟩ : ∃ n, s.size = n + 1 := Nat.exists_eq_succ_of_ne_zero hempty
    have hle := h.size_le
    refine ⟨h.capacity, h.mask, h.length_buffer, h.head_lt, (Nat.sub_le _ _).trans hle, ?_,
      h.accounts.pop, h.latest.pop, h.wallSeq, h.totalEmits, h.dropped⟩
    show window _ (s.head + 2 ^ k - (s.size - 1)) (s.size - 1) = f.contents.tail
    rw [← h.contents, hn, window_succ, List.tail_cons, Nat.add_sub_cancel]
    congr 1
    omega

theorem Holds.clear (h : Holds k s f) : Holds k s.clear f.clear :=
  ⟨h.capacity, h.mask, h.length_buffer, Nat.two_pow_pos k, Nat.zero_le _, rfl, h.accounts.clear,
    Fifo.Latest.clear h.accounts, h.wallSeq, h.totalEmits, h.dropped⟩

/-- **Every call keeps the relation**, and none writes outside the buffer. -/
theorem Holds.onSink (h : Holds k s f) (hk : k < 56) (c : SinkCall) :
    ∃ s', c.onSink s = some s' ∧ Holds k s' (c.onFifo (2 ^ k) f) := by
  cases c with
  | emit c =>
    by_cases hoff : c.level = .off
    · refine ⟨s, if_pos hoff, ?_⟩
      simp only [SinkCall.onFifo]
      rwa [if_pos hoff]
    · obtain ⟨s', hs', hholds⟩ := h.emit hk hoff
      refine ⟨s', hs', ?_⟩
      simp only [SinkCall.onFifo]
      rwa [if_neg hoff]
  | popOldest => exact ⟨_, rfl, h.popOldest⟩
  | clear => exact ⟨_, rfl, h.clear⟩

theorem Holds.run (h : Holds k s f) (hk : k < 56) (cs : List SinkCall) :
    ∃ s', s.run cs = some s' ∧ Holds k s' (cs.foldl (SinkCall.onFifo (2 ^ k)) f) := by
  induction cs generalizing s f with
  | nil => exact ⟨s, rfl, h⟩
  | cons c cs ih =>
    obtain ⟨m, hm, hholds⟩ := h.onSink hk c
    obtain ⟨s', hs', hend⟩ := ih hholds
    refine ⟨s', ?_, hend⟩
    unfold BinaryTraceSink.run
    rw [List.foldlM_cons, hm]
    exact hs'

/-- **What `peek_oldest` points at** is the oldest frame. -/
theorem Holds.peekOldest (h : Holds k s f) (hk : k < 56) : s.peekOldest = f.contents.head? := by
  have hle := h.size_le
  have hlt := h.head_lt
  unfold BinaryTraceSink.peekOldest
  split
  · next hempty =>
    rw [← h.contents, hempty]
    rfl
  · next hne =>
    obtain ⟨n, hn⟩ : ∃ n, s.size = n + 1 := Nat.exists_eq_succ_of_ne_zero hne
    have hpow : 2 ^ k ≤ 2 ^ 55 := Nat.pow_le_pow_right (by decide) (Nat.le_of_lt_succ hk)
    have holdest : s.oldest = (s.head + 2 ^ k - s.size) % 2 ^ k := by
      unfold oldest
      rw [h.capacity, h.mask, Nat.and_two_pow_sub_one_eq_mod]
      congr 1
      omega
    rw [← h.contents, holdest, hn, window_succ, List.head?_cons, slots_get]
    rfl

theorem Holds.popTimes (h : Holds k s f) (i : ℕ) :
    Holds k (s.popTimes i) (Fifo.pop^[i] f) := by
  induction i with
  | zero => exact h
  | succ i ih =>
    unfold BinaryTraceSink.popTimes
    rw [Function.iterate_succ_apply', Function.iterate_succ_apply']
    exact ih.popOldest

end

/-! ### The sink as a queue of frames -/

/-- **A queue of frames that drops the oldest**: what is to hold of the sink `s` that was made for
`capacity` frames, after the calls `cs`. -/
structure IsFrameQueue (capacity : ℕ) (cs : List SinkCall) (s : BinaryTraceSink) : Prop where
  rounded : ∃ k, s.capacity = 2 ^ k ∧ 2 ^ k ≤ max capacity 1 ∧ max capacity 1 < 2 ^ (k + 1)
  size : s.size = (fifoRun s.capacity cs).contents.length
  peek_none : s.peekOldest = none ↔ s.size = 0
  /-- the oldest frame is that of the first call whose frame is not gone -/
  peek : s.size ≠ 0 → s.peekOldest = (framesOf cs)[(fifoRun s.capacity cs).gone]?
  /-- pops in a row go through the frames in the order of their numbers -/
  pops : ∀ i < s.size,
    (s.popTimes i).peekOldest = (framesOf cs)[(fifoRun s.capacity cs).gone + i]? ∧
    (s.popTimes i).peekOldest.map getU64 = some (UInt64.ofNat ((fifoRun s.capacity cs).gone + i))
  total : s.totalEmits = s.dropped + UInt64.ofNat (fifoRun s.capacity cs).popped.length
    + UInt64.ofNat (fifoRun s.capacity cs).cleared.length + UInt64.ofNat s.size
  counted : (framesOf cs).length = (fifoRun s.capacity cs).discarded.length
    + (fifoRun s.capacity cs).popped.length + (fifoRun s.capacity cs).cleared.length + s.size
  dropped : s.dropped = UInt64.ofNat (fifoRun s.capacity cs).discarded.length

/-- A new sink is an empty queue, if its buffer has room for its frames. -/
theorem holds_init {k capacity : ℕ} (hk : k < 55)
    (hcapacity : floorPow2 (if capacity = 0 then 1 else capacity) = 2 ^ k) :
    ∃ s, init capacity = some s ∧ Holds k s {} := by
  have hpow : 2 ^ k ≤ 2 ^ 54 := Nat.pow_le_pow_right (by decide) (Nat.le_of_lt_succ hk)
  have hbytes : 2 ^ k * FRAME_BYTES % 2 ^ 64 = 2 ^ k * FRAME_BYTES := by
    refine Nat.mod_eq_of_lt ?_
    show 2 ^ k * 256 < 2 ^ 64
    omega
  have hroom : 2 ^ k * FRAME_BYTES ≤ MAX_BUFFER_BYTES := by
    show 2 ^ k * 256 ≤ 2 ^ 63 - 1
    omega
  unfold init
  simp only [hcapacity, hbytes, if_pos hroom]
  exact ⟨_, rfl, rfl, rfl, List.length_replicate, Nat.two_pow_pos k, Nat.zero_le _, rfl,
    Fifo.accounts_empty, Fifo.latest_empty, rfl, rfl, rfl⟩

/-- The frame with a number carries it. -/
theorem getU64_framesOf {cs : List SinkCall} {j : ℕ} (hj : j < (framesOf cs).length) :
    (framesOf cs)[j]?.map getU64 = some (UInt64.ofNat j) := by
  unfold framesOf at hj ⊢
  rw [List.length_mapIdx] at hj
  rw [List.getElem?_mapIdx, List.getElem?_eq_getElem hj]
  exact congrArg some (EmitCall.getU64_frame _ _)

theorem Holds.isFrameQueue {capacity k : ℕ} {cs : List SinkCall} {s : BinaryTraceSink}
    (h : Holds k s (fifoRun (2 ^ k) cs)) (hk : k < 56)
    (hrounded : 2 ^ k ≤ max capacity 1 ∧ max capacity 1 < 2 ^ (k + 1)) :
    IsFrameQueue capacity cs s := by
  have hlatest : (fifoRun (2 ^ k) cs).contents = (framesOf cs).drop (fifoRun (2 ^ k) cs).gone := by
    rw [← offered_fifoRun (2 ^ k)]
    exact h.latest
  have hcounted := h.accounts.counted
  rw [offered_fifoRun] at hcounted
  have hsize := h.size
  -- after `i` pops the oldest frame is the next but `i`
  have hpeek : ∀ i, (s.popTimes i).peekOldest = (framesOf cs)[(fifoRun (2 ^ k) cs).gone + i]? := by
    intro i
    rw [(h.popTimes i).peekOldest hk, Fifo.contents_iterate_pop, hlatest, List.drop_drop,
      List.head?_drop]
  have hnow : s.peekOldest = (framesOf cs)[(fifoRun (2 ^ k) cs).gone]? := hpeek 0
  refine ⟨⟨k, h.capacity, hrounded⟩, ?_, ?_, ?_, ?_, ?_, ?_, ?_⟩ <;> try rw [h.capacity]
  · exact hsize
  · rw [hnow, List.getElem?_eq_none_iff, hcounted, hsize]
    omega
  · exact fun _ => hnow
  · intro i hi
    refine ⟨hpeek i, ?_⟩
    rw [hpeek i, getU64_framesOf]
    omega
  · rw [h.totalEmits, h.dropped, offered_fifoRun, hcounted, hsize, ← UInt64.ofNat_add,
      ← UInt64.ofNat_add, ← UInt64.ofNat_add]
    unfold Fifo.gone
    congr 1
    omega
  · unfold Fifo.gone at hcounted
    omega
  · exact h.dropped

/-- A sink whose buffer is empty cannot take a frame. -/
theorem run_emit_of_empty {s : BinaryTraceSink} (h : s.buffer = []) {c : EmitCall}
    (hc : c.level ≠ .off) : s.run [.emit c] = none := by
  have hroom : ¬ (s.head &&& s.mask) * FRAME_BYTES % 2 ^ 64 + FRAME_BYTES ≤ s.buffer.length := by
    rw [h, List.length_nil]
    exact Nat.not_succ_le_zero _
  have hemit : s.emit c = none := by
    unfold BinaryTraceSink.emit
    simp only [if_neg hc, if_neg hroom]
  show (s.emit c >>= _) = none
  rw [hemit]
  rfl

/-- **A sink that is too large** is not made, or has an empty buffer: for `2 ^ 55` frames the vector
throws, and from `2 ^ 56` on the number of bytes wraps around to zero. -/
theorem buffer_of_init {k capacity : ℕ} (hk : 55 ≤ k)
    (hcapacity : floorPow2 (if capacity = 0 then 1 else capacity) = 2 ^ k)
    {s : BinaryTraceSink} (h : init capacity = some s) : s.buffer = [] := by
  unfold init at h
  simp only [hcapacity] at h
  obtain ⟨hbytes, hs⟩ := Option.ite_none_right_eq_some.mp h
  obtain rfl := Option.some.inj hs
  rcases hk.eq_or_lt with rfl | hk
  · exact absurd hbytes (by decide)
  · have hzero : 2 ^ k * FRAME_BYTES % 2 ^ 64 = 0 := by
      obtain ⟨d, rfl⟩ : ∃ d, k = 56 + d := Nat.exists_eq_add_of_le hk
      have hsplit : 2 ^ (56 + d) * FRAME_BYTES = 2 ^ 64 * 2 ^ d := by
        rw [pow_add]
        ring
      rw [hsplit, Nat.mul_mod_right]
    rw [hzero]
    rfl

/-- Such a sink does not survive the first event. -/
theorem runFrom_emit_eq_none {k capacity : ℕ} (hk : 55 ≤ k)
    (hcapacity : floorPow2 (if capacity = 0 then 1 else capacity) = 2 ^ k) {c : EmitCall}
    (hc : c.level ≠ .off) : runFrom capacity [.emit c] = none := by
  unfold runFrom
  cases h : init capacity with
  | none => rfl
  | some s => exact run_emit_of_empty (buffer_of_init hk hcapacity h) hc

/-- The power of two that the constructor makes of its argument. -/
theorem exists_capacity (capacity : UInt64) :
    ∃ k, floorPow2 (if capacity.toNat = 0 then 1 else capacity.toNat) = 2 ^ k ∧
      2 ^ k ≤ max capacity.toNat 1 ∧ max capacity.toNat 1 < 2 ^ (k + 1) := by
  by_cases hzero : capacity.toNat = 0
  · rw [if_pos hzero, hzero]
    exact floorPow2_spec (by decide)
  · rw [if_neg hzero]
    exact floorPow2_spec capacity.toNat_lt

/-- **A trace sink is a queue of frames that drops the oldest**, in every run, if and only if a
vector can have its number of bytes, and 64 bits can. -/
theorem run_iff (capacity : UInt64) :
    (∀ cs, ∃ s, runFrom capacity.toNat cs = some s ∧ IsFrameQueue capacity.toNat cs s) ↔
      capacity.toNat < 2 ^ 55 := by
  obtain ⟨k, hcapacity, hle, hlt⟩ := exists_capacity capacity
  constructor
  · intro h
    by_contra hlarge
    have hk : 55 ≤ k := by
      by_contra hsmall
      have hpow : 2 ^ (k + 1) ≤ 2 ^ 55 := Nat.pow_le_pow_right (by decide) (by omega)
      omega
    obtain ⟨s, hs, -⟩ := h [.emit ⟨.info, [], []⟩]
    rw [runFrom_emit_eq_none hk hcapacity (by decide)] at hs
    cases hs
  · intro hsmall cs
    have hk : k < 55 := by
      by_contra hlarge
      have hpow : 2 ^ 55 ≤ 2 ^ k := Nat.pow_le_pow_right (by decide) (by omega)
      omega
    obtain ⟨s, hs, hinit⟩ := holds_init hk hcapacity
    obtain ⟨s', hs', hholds⟩ := hinit.run (hk.trans (by decide)) cs
    refine ⟨s', ?_, hholds.isFrameQueue (hk.trans (by decide)) ⟨hle, hlt⟩⟩
    unfold runFrom
    rw [hs]
    exact hs'

/-- The first event of a sink for `2 ^ 56` frames is written outside its buffer. -/
theorem largest_sink_overruns :
    ¬ ∀ (capacity : UInt64) (cs : List SinkCall),
      ∃ s, runFrom capacity.toNat cs = some s ∧ IsFrameQueue capacity.toNat cs s := by
  intro h
  obtain ⟨s, hs, -⟩ := h (2 ^ 56) [.emit ⟨.info, [], []⟩]
  have hnumber : (2 ^ 56 : UInt64).toNat = 2 ^ 56 := by decide
  obtain ⟨k, hcapacity, hle, hlt⟩ := exists_capacity (2 ^ 56)
  have hk : 55 ≤ k := by
    by_contra hsmall
    have hpow : 2 ^ (k + 1) ≤ 2 ^ 56 := Nat.pow_le_pow_right (by decide) (by omega)
    omega
  rw [runFrom_emit_eq_none hk hcapacity (by decide)] at hs
  cases hs

end BinaryTraceSink

end MithAtomas
