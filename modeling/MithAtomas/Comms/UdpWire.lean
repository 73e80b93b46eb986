import MithAtomas.Framework.ByteCodec
import MithAtomas.Comms.Transport

/-!
# The datagram format

`src/comms/udp_wire.cpp`: a frame is a tag byte, a little-endian payload length and the payload, 155
bytes for a beacon and 176 for a message. Floats travel as their 32-bit patterns, so beacons and
messages are over `UInt32` here. The encoders return no bytes (the source's 0) when the buffer is
too small; the decoders read the fields one after the other, moving on by each field's width.

`decodeBeacon_encodeBeacon` and `decodeMessage_encodeMessage` are the round trips. Both transports
that use the format tell the two channels apart by the tag (`beaconOf`, `messageOf`).
-/

namespace MithAtomas

open ByteCodec

namespace UdpWire

def TAG_BEACON : UInt8 := 0x01
def TAG_MESSAGE : UInt8 := 0x02

def FRAME_HEADER_BYTES : ℕ := 5
def BEACON_PAYLOAD_BYTES : ℕ := 155
def BEACON_SIGNED_PREFIX_BYTES : ℕ := 91
def MESSAGE_PAYLOAD_BYTES : ℕ := 176
def MAX_FRAME_BYTES : ℕ := FRAME_HEADER_BYTES + MESSAGE_PAYLOAD_BYTES

/-- `put_hid`. -/
def putHid (hid : HierarchicalID) : List UInt8 :=
  u16.put hid.swarmId ++ (bytes 16).put hid.unitId.bytes

/-- `get_hid`. -/
def getHid (p : List UInt8) : HierarchicalID where
  swarmId := u16.get p
  unitId := ⟨(bytes 16).get (p.drop 2)⟩

/-- `serialise_beacon_signed_payload`, without the test of the capacity: the bytes that are
signed. -/
def beaconSignedPayload (sv : StateVector UInt32) : List UInt8 :=
  putHid sv.id ++
  (u32.put sv.position.x ++
  (u32.put sv.position.y ++
  (u32.put sv.position.z ++
  (u32.put sv.velocity.vx ++
  (u32.put sv.velocity.vy ++
  (u32.put sv.velocity.vz ++
  (u8.put sv.health.value ++
  (u32.put sv.role.role ++
  (u32.put sv.state.state ++
  (u32.put sv.tick ++
  (u32.put sv.syncTimeS ++
  (bytes 32).put sv.senderPubkey.publicKey)))))))))))

def serialiseBeaconSignedPayload (sv : StateVector UInt32) (cap : ℕ) : List UInt8 :=
  if cap < BEACON_SIGNED_PREFIX_BYTES then [] else beaconSignedPayload sv

def encodeBeacon (sv : StateVector UInt32) (cap : ℕ) : List UInt8 :=
  if cap < FRAME_HEADER_BYTES + BEACON_PAYLOAD_BYTES then []
  else
    TAG_BEACON :: (u32.put 155 ++
      (serialiseBeaconSignedPayload sv BEACON_SIGNED_PREFIX_BYTES ++ (bytes 64).put sv.signature))

def encodeMessage (msg : Message UInt32) (cap : ℕ) : List UInt8 :=
  if cap < FRAME_HEADER_BYTES + MESSAGE_PAYLOAD_BYTES then []
  else
    TAG_MESSAGE :: (u32.put 176 ++
      (putHid msg.sender ++
      (putHid msg.recipient ++
      (u32.put msg.type ++
      (u32.put msg.seq ++
      (u32.put msg.timestampS ++
      (bytes 128).put msg.payload))))))

def decodeBeacon (frame : List UInt8) : Option (StateVector UInt32) :=
  if frame.length < FRAME_HEADER_BYTES + BEACON_PAYLOAD_BYTES then none
  else if u8.get frame ≠ TAG_BEACON then none
  else if u32.get (frame.drop 1) ≠ 155 then none
  else
    -- behind the tag and the length, in the order of the encoder
    let p := (frame.drop 1).drop 4
    let id := getHid p
    let p := p.drop 18
    let x := u32.get p
    let p := p.drop 4
    let y := u32.get p
    let p := p.drop 4
    let z := u32.get p
    let p := p.drop 4
    let vx := u32.get p
    let p := p.drop 4
    let vy := u32.get p
    let p := p.drop 4
    let vz := u32.get p
    let p := p.drop 4
    let health := u8.get p
    let p := p.drop 1
    let role := u32.get p
    let p := p.drop 4
    let state := u32.get p
    let p := p.drop 4
    let tick := u32.get p
    let p := p.drop 4
    let syncTimeS := u32.get p
    let p := p.drop 4
    let senderPubkey := (bytes 32).get p
    let p := p.drop 32
    let signature := (bytes 64).get p
    some ⟨id, ⟨x, y, z⟩, ⟨vx, vy, vz⟩, ⟨health⟩, ⟨role⟩, ⟨state⟩, tick, syncTimeS, ⟨senderPubkey⟩,
      signature⟩

def decodeMessage (frame : List UInt8) : Option (Message UInt32) :=
  if frame.length < FRAME_HEADER_BYTES + MESSAGE_PAYLOAD_BYTES then none
  else if u8.get frame ≠ TAG_MESSAGE then none
  else if u32.get (frame.drop 1) ≠ 176 then none
  else
    let p := (frame.drop 1).drop 4
    let sender := getHid p
    let p := p.drop 18
    let recipient := getHid p
    let p := p.drop 18
    let type := u32.get p
    let p := p.drop 4
    let seq := u32.get p
    let p := p.drop 4
    let timestampS := u32.get p
    let p := p.drop 4
    let payload := (bytes 128).get p
    some ⟨sender, recipient, type, seq, timestampS, payload⟩

/-- `peek_tag`: the first byte, or 0. -/
def peekTag (frame : List UInt8) : UInt8 :=
  u8.get frame

/-! ### Fields -/

section Fields

variable (rest : List UInt8)

@[simp] theorem length_putHid (hid : HierarchicalID) : (putHid hid).length = 18 := by
  rw [putHid, List.length_append, u16.length_put, (bytes 16).length_put]
  rfl

@[simp] theorem drop_u8 (b : UInt8) : (u8.put b ++ rest).drop 1 = rest :=
  u8.drop_put b rest

@[simp] theorem drop_u16 (v : UInt16) : (u16.put v ++ rest).drop 2 = rest :=
  u16.drop_put v rest

@[simp] theorem drop_u32 (v : UInt32) : (u32.put v ++ rest).drop 4 = rest :=
  u32.drop_put v rest

@[simp] theorem drop_bytes {n : ℕ} (v : Vector UInt8 n) : ((bytes n).put v ++ rest).drop n = rest :=
  (bytes n).drop_put v rest

@[simp] theorem drop_putHid (hid : HierarchicalID) : (putHid hid ++ rest).drop 18 = rest := by
  rw [← length_putHid hid]
  exact List.drop_left

@[simp] theorem getHid_putHid (hid : HierarchicalID) : getHid (putHid hid ++ rest) = hid := by
  unfold getHid putHid
  rw [List.append_assoc, u16.get_put, drop_u16, (bytes 16).get_put]

/-- The last field of a record is read to the end of the frame. -/
theorem get_put_last {A : Type} (c : Codec A) (a : A) : c.get (c.put a) = a := by
  have h := c.get_put a []
  rwa [List.append_nil] at h

end Fields

/-! ### Frames -/

variable (sv : StateVector UInt32) (msg : Message UInt32)

theorem length_beaconSignedPayload : (beaconSignedPayload sv).length = 91 := by
  unfold beaconSignedPayload
  simp only [List.length_append, length_putHid, Codec.length_put]
  rfl

variable {cap : ℕ}

/-- A beacon frame, with room for it. -/
theorem encodeBeacon_eq (h : 160 ≤ cap) : encodeBeacon sv cap
    = TAG_BEACON :: (u32.put 155 ++ (beaconSignedPayload sv ++ (bytes 64).put sv.signature)) := by
  have hcap : ¬ cap < FRAME_HEADER_BYTES + BEACON_PAYLOAD_BYTES := not_lt.mpr h
  unfold encodeBeacon serialiseBeaconSignedPayload
  rw [if_neg hcap, if_neg (lt_irrefl _)]

/-- A message frame, with room for it. -/
theorem encodeMessage_eq (h : 181 ≤ cap) : encodeMessage msg cap
    = TAG_MESSAGE :: (u32.put 176 ++ (putHid msg.sender ++ (putHid msg.recipient ++
        (u32.put msg.type ++ (u32.put msg.seq ++ (u32.put msg.timestampS ++
          (bytes 128).put msg.payload)))))) := by
  have hcap : ¬ cap < FRAME_HEADER_BYTES + MESSAGE_PAYLOAD_BYTES := not_lt.mpr h
  unfold encodeMessage
  rw [if_neg hcap]

theorem length_encodeBeacon (h : 160 ≤ cap) : (encodeBeacon sv cap).length = 160 := by
  rw [encodeBeacon_eq sv h]
  simp only [List.length_cons, List.length_append, length_beaconSignedPayload, Codec.length_put]
  rfl

theorem length_encodeMessage (h : 181 ≤ cap) : (encodeMessage msg cap).length = 181 := by
  rw [encodeMessage_eq msg h]
  simp only [List.length_cons, List.length_append, length_putHid, Codec.length_put]
  rfl

/-- **The round trip of a beacon.** -/
theorem decodeBeacon_encodeBeacon (h : 160 ≤ cap) :
    decodeBeacon (encodeBeacon sv cap) = some sv := by
  have hlen : ¬ (encodeBeacon sv cap).length < FRAME_HEADER_BYTES + BEACON_PAYLOAD_BYTES := by
    rw [length_encodeBeacon sv h]
    decide
  unfold decodeBeacon
  rw [if_neg hlen, encodeBeacon_eq sv h]
  have htag : ∀ rest, u8.get (TAG_BEACON :: rest) = TAG_BEACON := fun _ => rfl
  rw [htag, if_neg (not_not.mpr rfl), List.drop_succ_cons, List.drop_zero, u32.get_put,
    if_neg (not_not.mpr rfl)]
  -- each field is read at the front of what is left, and left behind by its width
  simp only [beaconSignedPayload, List.append_assoc, drop_u32, drop_u8, drop_putHid, drop_bytes,
    getHid_putHid, Codec.get_put, get_put_last]

/-- **The round trip of a message.** -/
theorem decodeMessage_encodeMessage (h : 181 ≤ cap) :
    decodeMessage (encodeMessage msg cap) = some msg := by
  have hlen : ¬ (encodeMessage msg cap).length < FRAME_HEADER_BYTES + MESSAGE_PAYLOAD_BYTES := by
    rw [length_encodeMessage msg h]
    decide
  unfold decodeMessage
  rw [if_neg hlen, encodeMessage_eq msg h]
  have htag : ∀ rest, u8.get (TAG_MESSAGE :: rest) = TAG_MESSAGE := fun _ => rfl
  rw [htag, if_neg (not_not.mpr rfl), List.drop_succ_cons, List.drop_zero, u32.get_put,
    if_neg (not_not.mpr rfl)]
  simp only [drop_u32, drop_putHid, getHid_putHid, Codec.get_put, get_put_last]

theorem peekTag_encodeBeacon (h : 160 ≤ cap) : peekTag (encodeBeacon sv cap) = TAG_BEACON := by
  rw [encodeBeacon_eq sv h]
  rfl

theorem peekTag_encodeMessage (h : 181 ≤ cap) :
    peekTag (encodeMessage msg cap) = TAG_MESSAGE := by
  rw [encodeMessage_eq msg h]
  rfl

/-! ### The two channels -/

/-- The beacon that a frame carries. -/
def beaconOf (frame : List UInt8) : Option (StateVector UInt32) :=
  if peekTag frame = TAG_BEACON then decodeBeacon frame else none

/-- The message that a frame carries. -/
def messageOf (frame : List UInt8) : Option (Message UInt32) :=
  if peekTag frame = TAG_MESSAGE then decodeMessage frame else none

/-- The frame carries neither. -/
def malformed (frame : List UInt8) : Bool :=
  (beaconOf frame).isNone && (messageOf frame).isNone

/-- A beacon's frame carries the beacon and nothing else. -/
theorem carries_beacon : beaconOf (encodeBeacon sv MAX_FRAME_BYTES) = some sv ∧
    messageOf (encodeBeacon sv MAX_FRAME_BYTES) = none := by
  unfold beaconOf messageOf
  rw [peekTag_encodeBeacon sv (by decide), decodeBeacon_encodeBeacon sv (by decide)]
  exact ⟨if_pos rfl, if_neg (by decide)⟩

/-- A message's frame carries the message and nothing else. -/
theorem carries_message : messageOf (encodeMessage msg MAX_FRAME_BYTES) = some msg ∧
    beaconOf (encodeMessage msg MAX_FRAME_BYTES) = none := by
  unfold beaconOf messageOf
  rw [peekTag_encodeMessage msg (by decide), decodeMessage_encodeMessage msg (by decide)]
  exact ⟨if_pos rfl, if_neg (by decide)⟩

end UdpWire

/-- The datagram frame of a packet. -/
def Packet.datagram : Packet UInt32 → List UInt8
  | .beacon sv => UdpWire.encodeBeacon sv UdpWire.MAX_FRAME_BYTES
  | .message msg => UdpWire.encodeMessage msg UdpWire.MAX_FRAME_BYTES

namespace UdpWire

theorem filterMap_beaconOf (ps : List (Packet UInt32)) :
    (ps.map Packet.datagram).filterMap beaconOf = ps.filterMap Packet.beacon? := by
  rw [List.filterMap_map]
  apply List.filterMap_congr
  rintro (sv | msg) -
  · exact (carries_beacon sv).1
  · exact (carries_message msg).2

theorem filterMap_messageOf (ps : List (Packet UInt32)) :
    (ps.map Packet.datagram).filterMap messageOf
      = ps.filterMap Packet.message? := by
  rw [List.filterMap_map]
  apply List.filterMap_congr
  rintro (sv | msg) -
  · exact (carries_beacon sv).2
  · exact (carries_message msg).1

theorem countP_malformed (ps : List (Packet UInt32)) :
    (ps.map Packet.datagram).countP malformed = 0 := by
  rw [List.countP_eq_zero]
  intro frame hframe
  obtain ⟨p, -, rfl⟩ := List.mem_map.mp hframe
  unfold malformed
  cases p with
  | beacon sv =>
    rw [Packet.datagram, (carries_beacon sv).1]
    simp
  | message msg =>
    rw [Packet.datagram, (carries_message msg).1]
    simp

end UdpWire

end MithAtomas
