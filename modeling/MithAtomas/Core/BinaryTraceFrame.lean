import MithAtomas.Core.BinaryTraceSink
import MithAtomas.Framework.ByteStore

/-!
# What an emit writes

`BinaryTraceSink::emit` once more, store by store: the slot is zeroed, then the header, the name and
the fields are written over the zeros, each at its own offset (`storeFrame`). Together the stores
are one, of the frame (`storeFrame_eq`), so nothing outside the slot changes, and what the slot held
before does not matter.

`decodeFrame` reads a frame by the layout in the header file. `frame_decodes` is the result: it
gives back what `emit` was called with, cut to what a frame has room for, and everything else is
zero.
-/

namespace MithAtomas

open ByteCodec ByteStore Ring

/-! ### The stores -/

/-- The body of the loop over the fields. -/
def storeField (m : Memory) (fieldP : ℕ) (f : EmitField) : Memory :=
  let m := store m fieldP [f.value.kind]
  let keyLen := min f.key.length MAX_KEY_BYTES
  let m := store m (fieldP + 1) [UInt8.ofNat keyLen]
  let m := if 0 < keyLen then store m (fieldP + 2) (f.key.take keyLen) else m
  -- the value is at the offset 8, whatever the length of the key
  match f.value with
  | .i64 v => store m (fieldP + 8) (putU64 v.toUInt64)
  | .u64 v => store m (fieldP + 8) (putU64 v)
  | .f64 bits => store m (fieldP + 8) (putU64 bits)
  | .boolean v => store m (fieldP + 8) [if v then 1 else 0]
  | .str v =>
    let copy := min v.length 8
    if 0 < copy then store m (fieldP + 8) (v.take copy) else m

/-- The loop over the fields. -/
def storeFields (m : Memory) (fieldP : ℕ) : List EmitField → Memory
  | [] => m
  | f :: fs => storeFields (storeField m fieldP f) (fieldP + FIELD_BYTES) fs

/-- What `emit` writes to the slot at `frame`. -/
def storeFrame (c : EmitCall) (seq : UInt64) (m : Memory) (frame : ℕ) : Memory :=
  let m := store m frame (List.replicate FRAME_BYTES 0)
  let m := store m (frame + 0) (putU64 seq)
  let m := store m (frame + 8) [c.level.toUInt8]
  let m := store m (frame + 9) [UInt8.ofNat c.fieldCount]
  let m := store m (frame + 10) (putU16 (UInt16.ofNat c.nameRoom))
  let m := if 0 < c.nameRoom then store m (frame + 12) (c.event.take c.nameRoom) else m
  storeFields m (frame + 12 + c.nameRoom) (c.fields.take c.fieldCount)

/-- `emit` of the sink whose buffer is at the address `data`, as far as the memory is concerned. -/
def BinaryTraceSink.emitStores (s : BinaryTraceSink) (data : ℕ) (c : EmitCall) (m : Memory) :
    Memory :=
  if c.level = .off then m
  else storeFrame c s.wallSeq m (data + (s.head &&& s.mask) * FRAME_BYTES % 2 ^ 64)

/-! ### The layout -/

/-- A field of a frame. -/
structure FrameField where
  key : List UInt8
  value : FieldValue
  /-- the bytes of the field that are part of neither -/
  unused : List UInt8
  deriving DecidableEq

/-- A frame, as a decoder sees it. -/
structure DecodedFrame where
  wallSeq : UInt64
  level : TraceLevel
  eventName : List UInt8
  fields : List FrameField
  /-- the bytes behind the last field -/
  pad : List UInt8
  deriving DecidableEq

/-- The level with this number. -/
def decodeLevel : UInt8 → Option TraceLevel
  | 0 => some .off
  | 1 => some .warn
  | 2 => some .info
  | 3 => some .debug
  | _ => none

/-- The value of a field, and what is left of its eight bytes. A string takes all of them, as its
length is not stored. -/
def decodeValue (kind : UInt8) (value : List UInt8) : Option (FieldValue × List UInt8) :=
  match kind with
  | 0 => some (.str value, [])
  | 1 => some (.i64 (getU64 value).toInt64, [])
  | 2 => some (.u64 (getU64 value), [])
  | 3 => some (.f64 (getU64 value), [])
  | 4 => some (.boolean (value.getD 0 0 ≠ 0), value.drop 1)
  | _ => none

/-- The sixteen bytes of a field: kind, length of the key, six bytes of key, eight of value. -/
def decodeField (p : List UInt8) : Option FrameField := do
  let keyLen := (p.getD 1 0).toNat
  let (value, left) ← decodeValue (p.getD 0 0) ((p.drop 8).take 8)
  return ⟨((p.drop 2).take 6).take keyLen, value, ((p.drop 2).take 6).drop keyLen ++ left⟩

/-- `n` fields, one behind the other. -/
def decodeFields : ℕ → List UInt8 → Option (List FrameField)
  | 0, _ => some []
  | n + 1, p => do
    let field ← decodeField (p.take FIELD_BYTES)
    let fields ← decodeFields n (p.drop FIELD_BYTES)
    return field :: fields

/-- The layout of a frame in the header file. -/
def decodeFrame (p : List UInt8) : Option DecodedFrame := do
  let level ← decodeLevel (p.getD 8 0)
  let fieldCount := (p.getD 9 0).toNat
  let e := min (getU16 (p.drop 10)).toNat MAX_NAME_LEN
  let fields ← decodeFields fieldCount (p.drop (12 + e))
  return ⟨getU64 p, level, (p.drop 12).take e, fields,
    p.drop (12 + e + fieldCount * FIELD_BYTES)⟩

/-! ### What is to be read -/

/-- The bytes that a field leaves alone: those behind a short key, and those behind a boolean. -/
def EmitField.unused (f : EmitField) : ℕ :=
  (MAX_KEY_BYTES - f.key.length) + match f.value with | .boolean _ => 7 | _ => 0

/-- A value with eight bytes to it: a string is cut, or filled up with zeros. -/
def FieldValue.stored : FieldValue → FieldValue
  | .str v => .str (padTo 8 (v.take 8))
  | v => v

/-- The field, as it is read. -/
def EmitField.decoded (f : EmitField) : FrameField where
  key := f.key.take MAX_KEY_BYTES
  value := f.value.stored
  unused := List.replicate f.unused 0

/-- The call, as it is read from its frame. -/
def EmitCall.decoded (c : EmitCall) (seq : UInt64) : DecodedFrame where
  wallSeq := seq
  level := c.level
  eventName := c.event.take MAX_NAME_LEN
  fields := (c.fields.take ((244 - min c.event.length 64) / 16)).map EmitField.decoded
  pad := List.replicate (244 - min c.event.length 64
    - min c.fields.length ((244 - min c.event.length 64) / 16) * 16) 0

/-! ### Writing over zeros -/

section Zeros

variable {n k : ℕ} {bytes more : List UInt8} {m : Memory} {a : ℕ}

theorem splice_padTo (n : ℕ) (bytes more : List UInt8) :
    splice (padTo n bytes) bytes.length more = padTo n (bytes ++ more) := by
  unfold splice padTo
  rw [List.take_left, ← List.drop_drop, List.drop_left, List.drop_replicate, List.length_append,
    List.append_assoc, Nat.sub_sub]

/-- Zeros in front of zeros. -/
theorem padTo_append_padTo (h : more.length ≤ k) (hk : bytes.length + k ≤ n) :
    padTo n (bytes ++ padTo k more) = padTo n (bytes ++ more) := by
  unfold padTo
  simp only [List.append_assoc, List.length_append, List.length_replicate]
  rw [List.append_cancel_left_eq, List.append_cancel_left_eq, List.replicate_append_replicate]
  congr 1
  omega

/-- **What is written behind the bytes that are there** is one more piece of them. -/
theorem store_padTo (hk : k = bytes.length) (h : bytes.length + more.length ≤ n) :
    store (store m a (padTo n bytes)) (a + k) more = store m a (padTo n (bytes ++ more)) := by
  subst hk
  have hlength : (padTo n bytes).length = n := length_padTo (by omega)
  rw [store_store (by omega), splice_padTo]

theorem take_min_length {A : Type} (l : List A) (len : ℕ) :
    l.take (min l.length len) = l.take len := by
  rcases le_total l.length len with h | h
  · rw [min_eq_left h, List.take_length, List.take_of_length_le h]
  · rw [min_eq_right h]

/-- A `memcpy` that is left out when there is nothing to copy. -/
theorem ite_store_take (l : List UInt8) (len a : ℕ) :
    (if 0 < min l.length len then store m a (l.take (min l.length len)) else m)
      = store m a (l.take len) := by
  rw [take_min_length]
  split
  · rfl
  · next hzero =>
    have hnil : l.take len = [] := by
      rw [← take_min_length, show min l.length len = 0 by omega, List.take_zero]
    rw [hnil, store_nil]

end Zeros

/-! ### One store -/

/-- The value, in each of the five kinds, is written at its offset. -/
theorem storeField_eq_value (m : Memory) (fieldP : ℕ) (f : EmitField) :
    storeField m fieldP f
      = store (store (store (store m fieldP [f.value.kind]) (fieldP + 1)
          [UInt8.ofNat (min f.key.length MAX_KEY_BYTES)]) (fieldP + 2) (f.key.take MAX_KEY_BYTES))
          (fieldP + 8) f.value.bytes := by
  unfold storeField
  simp only [ite_store_take]
  cases f.value <;> rfl

/-- **A field is written behind what is there.** -/
theorem storeField_eq {n : ℕ} {bytes : List UInt8} (m : Memory) (a : ℕ) (f : EmitField)
    (h : bytes.length + FIELD_BYTES ≤ n) :
    storeField (store m a (padTo n bytes)) (a + bytes.length) f
      = store m a (padTo n (bytes ++ f.frameBytes)) := by
  have hroom : bytes.length + 16 ≤ n := h
  have hsix : MAX_KEY_BYTES = 6 := rfl
  have hkey : (f.key.take MAX_KEY_BYTES).length ≤ 6 := List.length_take_le _ _
  have hvalue := f.value.length_bytes_le
  -- the head of the field, with its key filled up to where the value begins
  have hhead : padTo n (bytes ++ [f.value.kind] ++ [UInt8.ofNat (min f.key.length MAX_KEY_BYTES)]
        ++ f.key.take MAX_KEY_BYTES)
      = padTo n (bytes ++ [f.value.kind] ++ [UInt8.ofNat (min f.key.length MAX_KEY_BYTES)]
        ++ padTo MAX_KEY_BYTES (f.key.take MAX_KEY_BYTES)) :=
    (padTo_append_padTo hkey (by simp; omega)).symm
  have hlength : (bytes ++ [f.value.kind] ++ [UInt8.ofNat (min f.key.length MAX_KEY_BYTES)]
      ++ padTo MAX_KEY_BYTES (f.key.take MAX_KEY_BYTES)).length = bytes.length + 8 := by
    simp [length_padTo hkey]
  -- kind, length, key and value, each written behind the one before
  rw [storeField_eq_value, store_padTo rfl (by simp; omega), Nat.add_assoc, Nat.add_assoc,
    Nat.add_assoc, store_padTo (by simp) (by simp; omega),
    store_padTo (by simp) (by simp; omega), hhead, store_padTo hlength.symm (by omega),
    ← padTo_append_padTo hvalue (by omega)]
  unfold EmitField.frameBytes
  simp only [List.append_assoc, List.cons_append, List.nil_append]

/-- The loop writes field behind field. -/
theorem storeFields_eq {n : ℕ} {bytes : List UInt8} (m : Memory) (a : ℕ) (fs : List EmitField)
    (h : bytes.length + fs.length * FIELD_BYTES ≤ n) :
    storeFields (store m a (padTo n bytes)) (a + bytes.length) fs
      = store m a (padTo n (bytes ++ fs.flatMap EmitField.frameBytes)) := by
  induction fs generalizing bytes with
  | nil =>
    rw [List.flatMap_nil, List.append_nil]
    rfl
  | cons f fs ih =>
    rw [List.length_cons, Nat.succ_mul] at h
    have hlength : (bytes ++ f.frameBytes).length = bytes.length + FIELD_BYTES := by
      rw [List.length_append, f.length_frameBytes]
    rw [storeFields, storeField_eq m a f (by omega), Nat.add_assoc, ← hlength, ih (by omega),
      List.flatMap_cons, List.append_assoc]

/-- **All stores of an emit together** write the frame to the slot. -/
theorem storeFrame_eq (c : EmitCall) (seq : UInt64) (m : Memory) (frame : ℕ) :
    storeFrame c seq m frame = store m frame (c.frame seq) := by
  have hname : c.nameRoom ≤ 64 := Nat.min_le_right _ _
  have hfields : c.fieldCount * 16 ≤ 256 - 12 - c.nameRoom :=
    (Nat.mul_le_mul_right _ (Nat.min_le_right _ _)).trans (Nat.div_mul_le_self _ _)
  have hcount : (c.fields.take c.fieldCount).length ≤ c.fieldCount := List.length_take_le _ _
  have hevent : (c.event.take c.nameRoom).length = c.nameRoom := by
    rw [List.length_take, EmitCall.nameRoom]
    omega
  -- a name of no bytes is not copied
  have hcopy : ∀ m : Memory, (if 0 < c.nameRoom then store m (frame + 12) (c.event.take c.nameRoom)
      else m) = store m (frame + 12) (c.event.take c.nameRoom) := by
    intro m
    unfold EmitCall.nameRoom
    rw [ite_store_take, take_min_length]
  have hzeros : List.replicate FRAME_BYTES (0 : UInt8) = padTo FRAME_BYTES [] := rfl
  have htotal : FRAME_BYTES = 256 := rfl
  have hlen : ∀ v : UInt16, (putU16 v).length = 2 := fun _ => rfl
  unfold storeFrame
  simp only [hcopy]
  rw [hzeros, store_padTo (by rfl) (by simp; omega), store_padTo (by simp) (by simp; omega),
    store_padTo (by simp) (by simp; omega), store_padTo (by simp) (by simp [hlen]; omega),
    store_padTo (by simp [hlen]) (by simp [hlen]; omega)]
  -- the fields begin behind the header and the name
  have hheader : (([] ++ putU64 seq ++ [c.level.toUInt8] ++ [UInt8.ofNat c.fieldCount]
      ++ putU16 (UInt16.ofNat c.nameRoom) ++ c.event.take c.nameRoom)).length =
        12 + c.nameRoom := by
    simp only [List.length_append, List.length_nil, length_putU64, List.length_singleton, hlen,
      hevent]
  rw [Nat.add_assoc, ← hheader, storeFields_eq]
  · unfold EmitCall.frame
    simp only [List.nil_append, List.append_assoc, List.cons_append]
  · -- there is room for as many fields as the frame counts
    rw [hheader]
    show 12 + c.nameRoom + (c.fields.take c.fieldCount).length * 16 ≤ 256
    omega

/-- Nothing outside the slot is written. -/
theorem storeFrame_of_outside (c : EmitCall) (seq : UInt64) (m : Memory) {frame x : ℕ}
    (h : x < frame ∨ frame + FRAME_BYTES ≤ x) : storeFrame c seq m frame x = m x := by
  rw [storeFrame_eq]
  rcases h with hbefore | hbehind
  · exact store_of_lt hbefore
  · exact store_of_ge (by rwa [c.length_frame])

/-- The slot is the frame. -/
theorem load_storeFrame (c : EmitCall) (seq : UInt64) (m : Memory) (frame : ℕ) :
    load (storeFrame c seq m frame) frame FRAME_BYTES = c.frame seq := by
  have hload := load_store m frame (c.frame seq)
  rw [c.length_frame] at hload
  rw [storeFrame_eq, hload]

/-- **The stores are those of `emit`**: with the buffer of the sink in memory, they leave the buffer
that the sink has then. -/
theorem BinaryTraceSink.load_emitStores {s s' : BinaryTraceSink} {c : EmitCall} {m : Memory}
    {data : ℕ} (hbuffer : load m data s.buffer.length = s.buffer) (h : s.emit c = some s') :
    load (s.emitStores data c m) data s.buffer.length = s'.buffer := by
  unfold emit at h
  unfold emitStores
  split at h
  · next hoff =>
    rw [if_pos hoff, hbuffer]
    exact congrArg BinaryTraceSink.buffer (Option.some.inj h)
  · next hon =>
    simp only at h
    split at h
    · next hroom =>
      -- the slot is within the buffer
      rw [← Option.some.inj h, if_neg hon, storeFrame_eq, load_store_within, hbuffer]
      rwa [c.length_frame]
    · cases h

/-! ### Reading a frame -/

theorem decodeLevel_toUInt8 (level : TraceLevel) : decodeLevel level.toUInt8 = some level := by
  cases level <;> rfl

theorem getU64_padTo (v : UInt64) : getU64 (padTo 8 (putU64 v)) = v :=
  getU64_putU64 v _

/-- The eight bytes of a value. -/
theorem decodeValue_bytes (v : FieldValue) :
    decodeValue v.kind (padTo 8 v.bytes) = some (v.stored,
      List.replicate (match v with | .boolean _ => 7 | _ => 0) 0) := by
  cases v with
  | str v => rfl
  | i64 v =>
    show some (FieldValue.i64 (getU64 (padTo 8 (putU64 v.toUInt64))).toInt64, _) = _
    rw [getU64_padTo, Int64.toInt64_toUInt64]
    rfl
  | u64 v =>
    show some (FieldValue.u64 (getU64 (padTo 8 (putU64 v))), _) = _
    rw [getU64_padTo]
    rfl
  | f64 bits =>
    show some (FieldValue.f64 (getU64 (padTo 8 (putU64 bits))), _) = _
    rw [getU64_padTo]
    rfl
  | boolean v => cases v <;> rfl

/-- **A field is read as it was written.** -/
theorem decodeField_frameBytes (f : EmitField) : decodeField f.frameBytes = some f.decoded := by
  have hlength : (f.key.take MAX_KEY_BYTES).length = min f.key.length 6 := by
    rw [List.length_take, min_comm]
  have hkey : (padTo 6 (f.key.take MAX_KEY_BYTES)).length = 6 :=
    length_padTo (List.length_take_le _ _)
  have hvalue : (padTo 8 f.value.bytes).length = 8 := length_padTo f.value.length_bytes_le
  have hkeyLen : (UInt8.ofNat (min f.key.length MAX_KEY_BYTES)).toNat = min f.key.length 6 :=
    Nat.mod_eq_of_lt (lt_of_le_of_lt (min_le_right _ _) (by decide))
  have hbytes : f.frameBytes = f.value.kind :: UInt8.ofNat (min f.key.length MAX_KEY_BYTES) ::
      (padTo 6 (f.key.take MAX_KEY_BYTES) ++ padTo 8 f.value.bytes) := rfl
  have hkeySlot : (f.frameBytes.drop 2).take 6 = padTo 6 (f.key.take MAX_KEY_BYTES) := by
    rw [hbytes]
    exact List.take_left' hkey
  have hvalueSlot : (f.frameBytes.drop 8).take 8 = padTo 8 f.value.bytes := by
    rw [hbytes, show 8 = 6 + 1 + 1 from rfl, List.drop_succ_cons, List.drop_succ_cons,
      List.drop_left' hkey, List.take_of_length_le hvalue.le]
  -- the length says how much of the key's slot is the key
  have hused : (padTo 6 (f.key.take MAX_KEY_BYTES)).take (min f.key.length 6)
      = f.key.take MAX_KEY_BYTES :=
    List.take_left' hlength
  have hunused : (padTo 6 (f.key.take MAX_KEY_BYTES)).drop (min f.key.length 6)
      = List.replicate (6 - f.key.length) 0 := by
    unfold padTo
    rw [List.drop_left' hlength, hlength]
    congr 1
    omega
  have hkind : f.frameBytes.getD 0 0 = f.value.kind := rfl
  have hcount : f.frameBytes.getD 1 0 = UInt8.ofNat (min f.key.length MAX_KEY_BYTES) := rfl
  unfold decodeField
  simp only [hkeySlot, hvalueSlot, hkind, hcount, hkeyLen, hused, hunused, decodeValue_bytes]
  show some _ = some _
  unfold EmitField.decoded EmitField.unused
  rw [List.replicate_add]

theorem decodeFields_flatMap (fs : List EmitField) (rest : List UInt8) :
    decodeFields fs.length (fs.flatMap EmitField.frameBytes ++ rest)
      = some (fs.map EmitField.decoded) := by
  induction fs with
  | nil => rfl
  | cons f fs ih =>
    rw [List.flatMap_cons, List.append_assoc, List.length_cons, decodeFields,
      List.take_left' f.length_frameBytes, List.drop_left' f.length_frameBytes,
      decodeField_frameBytes, ih]
    rfl

/-- The parts of a frame: eight bytes, two of one byte, two of two, and the rest. -/
theorem frame_eq (c : EmitCall) (seq : UInt64) :
    c.frame seq = putU64 seq ++ ([c.level.toUInt8, UInt8.ofNat c.fieldCount] ++
      (putU16 (UInt16.ofNat c.nameRoom) ++ (c.event.take c.nameRoom ++
        ((c.fields.take c.fieldCount).flatMap EmitField.frameBytes ++
          List.replicate (244 - c.nameRoom - c.fieldCount * 16) 0)))) := by
  have hevent : (c.event.take c.nameRoom).length = c.nameRoom := by
    rw [List.length_take, EmitCall.nameRoom]
    omega
  have hlength : (c.fields.take c.fieldCount).length = c.fieldCount :=
    List.length_take_of_le (Nat.min_le_left _ _)
  unfold EmitCall.frame padTo
  simp only [List.append_assoc, List.length_append, EmitCall.length_flatMap_frameBytes, hlength,
    hevent, length_putU64]
  -- what is filled up: all of the frame but the header, the name and the fields
  have hzeros : FRAME_BYTES - (8 + ([c.level.toUInt8, UInt8.ofNat c.fieldCount].length
      + ((putU16 (UInt16.ofNat c.nameRoom)).length + (c.nameRoom + c.fieldCount * FIELD_BYTES))))
      = 244 - c.nameRoom - c.fieldCount * 16 := by
    show 256 - (8 + (2 + (2 + (c.nameRoom + c.fieldCount * 16)))) = _
    omega
  rw [hzeros]

/-- What the header says: the level, the number of fields and the length of the name. -/
theorem header_frame (c : EmitCall) (seq : UInt64) :
    (c.frame seq).getD 8 0 = c.level.toUInt8 ∧
      ((c.frame seq).getD 9 0).toNat = c.fieldCount ∧
      min (getU16 ((c.frame seq).drop 10)).toNat MAX_NAME_LEN = c.nameRoom := by
  have hname : c.nameRoom ≤ 64 := Nat.min_le_right _ _
  have hcount : c.fieldCount * 16 ≤ 244 - c.nameRoom :=
    (Nat.mul_le_mul_right _ (Nat.min_le_right _ _)).trans (Nat.div_mul_le_self _ _)
  have hget : getU16 ((c.frame seq).drop 10) = UInt16.ofNat c.nameRoom := by
    rw [frame_eq]
    exact getU16_putU16 _ _
  rw [hget, frame_eq]
  refine ⟨rfl, ?_, ?_⟩
  · show (UInt8.ofNat c.fieldCount).toNat = _
    exact Nat.mod_eq_of_lt (show c.fieldCount < 256 by omega)
  · show min (c.nameRoom % 2 ^ 16) 64 = _
    omega

/-- **A frame is read as it was written.** -/
theorem decodeFrame_frame (c : EmitCall) (seq : UInt64) :
    decodeFrame (c.frame seq) = some (c.decoded seq) := by
  obtain ⟨hlevel, hfieldCount, heventLen⟩ := header_frame c seq
  have hevent : (c.event.take c.nameRoom).length = c.nameRoom := by
    rw [List.length_take, EmitCall.nameRoom]
    omega
  have hlength : (c.fields.take c.fieldCount).length = c.fieldCount :=
    List.length_take_of_le (Nat.min_le_left _ _)
  -- behind the header: the name, the fields, and zeros
  have hbody : (c.frame seq).drop 12 = c.event.take c.nameRoom ++
      ((c.fields.take c.fieldCount).flatMap EmitField.frameBytes ++
        List.replicate (244 - c.nameRoom - c.fieldCount * 16) 0) := by
    rw [frame_eq]
    rfl
  have hfields := decodeFields_flatMap (c.fields.take c.fieldCount)
    (List.replicate (244 - c.nameRoom - c.fieldCount * 16) 0)
  rw [hlength] at hfields
  have hpad : ((c.fields.take c.fieldCount).flatMap EmitField.frameBytes).length
      = c.fieldCount * FIELD_BYTES := by
    rw [EmitCall.length_flatMap_frameBytes, hlength]
  unfold decodeFrame
  simp only [hlevel, decodeLevel_toUInt8, hfieldCount, heventLen, Nat.add_assoc, ← List.drop_drop,
    hbody, List.take_left' hevent, List.drop_left' hevent, List.drop_left' hpad, hfields]
  -- what was cut to the room of the frame is what was cut to the length that it may have
  have hname : c.event.take c.nameRoom = c.event.take MAX_NAME_LEN := take_min_length c.event _
  have hkept : c.fields.take c.fieldCount = c.fields.take ((244 - c.nameRoom) / 16) :=
    take_min_length c.fields _
  show some _ = some _
  rw [c.getU64_frame, hname, hkept]
  rfl

/-- **What an emit writes.** Whatever its slot held, the frame in it is read as the number of the
call, its level, the beginning of its name and as many of its fields as fit, each with the beginning
of its key and its value, a string by its first eight bytes; everything else in the slot is zero,
and no byte outside the slot changes. With the buffer of the sink in memory, the stores leave the
buffer that the sink has after the call. -/
theorem frame_decodes (s : BinaryTraceSink) (c : EmitCall) (hc : c.level ≠ .off) (data : ℕ)
    (m : Memory) :
    decodeFrame (load (s.emitStores data c m)
      (data + (s.head &&& s.mask) * FRAME_BYTES % 2 ^ 64) FRAME_BYTES)
        = some (c.decoded s.wallSeq) ∧
    (∀ x, x < data + (s.head &&& s.mask) * FRAME_BYTES % 2 ^ 64 ∨
      data + (s.head &&& s.mask) * FRAME_BYTES % 2 ^ 64 + FRAME_BYTES ≤ x →
      s.emitStores data c m x = m x) ∧
    ∀ s', load m data s.buffer.length = s.buffer → s.emit c = some s' →
      load (s.emitStores data c m) data s.buffer.length = s'.buffer := by
  have hstores : s.emitStores data c m
      = storeFrame c s.wallSeq m (data + (s.head &&& s.mask) * FRAME_BYTES % 2 ^ 64) := if_neg hc
  refine ⟨?_, fun x hx => ?_, fun s' hbuffer hemit => BinaryTraceSink.load_emitStores hbuffer hemit⟩
  · rw [hstores, load_storeFrame]
    exact decodeFrame_frame c s.wallSeq
  · rw [hstores]
    exact storeFrame_of_outside c s.wallSeq m hx

/-- A key that is cut and an empty one, over a slot that was full of ones. -/
theorem cut_frame_decodes :
    decodeFrame (load
        ((⟨List.replicate 256 0xFF, 1, 0, 0, 0, 7, 0, 7⟩ : BinaryTraceSink).emitStores 0
          ⟨.info, [0x78], [⟨List.replicate 7 0x6B, .i64 (-2)⟩, ⟨[], .boolean true⟩]⟩
          fun _ => 0xFF) 0 256)
      = some ⟨7, .info, [0x78], [⟨List.replicate 6 0x6B, .i64 (-2), []⟩,
        ⟨[], .boolean true, List.replicate 13 0⟩], List.replicate 211 0⟩ :=
  (frame_decodes ⟨List.replicate 256 0xFF, 1, 0, 0, 0, 7, 0, 7⟩
    ⟨.info, [0x78], [⟨List.replicate 7 0x6B, .i64 (-2)⟩, ⟨[], .boolean true⟩]⟩ (by decide) 0
    fun _ => 0xFF).1.trans rfl

end MithAtomas
