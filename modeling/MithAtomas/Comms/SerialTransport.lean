import MithAtomas.Comms.SerialFraming
import MithAtomas.Comms.UdpWire

/-!
# The serial transport

`src/comms/serial_transport.cpp`: beacons and messages travel as datagram frames inside framed
packets over a file descriptor. The descriptor is a lossless ordered byte queue here, so that a
write always takes the whole packet and the transport stays healthy.

`sendBeacon_eq` and `sendMessage_eq` say what a send puts on the descriptor, `drainStep_eq` what a
read does.
-/

namespace MithAtomas

open SerialFraming UdpWire

/-- `SerialTransport::Impl`, without the descriptor and its health. -/
structure SerialTransport where
  parser : Parser MAX_PAYLOAD_BYTES := {}
  bytesSent : UInt64 := 0
  bytesReceived : UInt64 := 0
  parseErrors : UInt64 := 0
  inboxBeacons : List (StateVector UInt32) := []
  inboxMessages : List (Message UInt32) := []
  deriving DecidableEq, Repr

namespace SerialTransport

/-- `write_framed`: the transport after it, and the bytes put on the descriptor; none where the
source returns `false`. -/
def writeFramed (impl : SerialTransport) (payload : List UInt8) :
    Option (SerialTransport × List UInt8) :=
  let buf := SerialFraming.encode payload (SerialFraming.FRAME_HEADER_BYTES + MAX_FRAME_BYTES)
  if buf.length = 0 then none
  else some ({ impl with bytesSent := impl.bytesSent + UInt64.ofNat buf.length }, buf)

def sendBeacon (impl : SerialTransport) (sv : StateVector UInt32) :
    Option (SerialTransport × List UInt8) :=
  let inner := encodeBeacon sv MAX_FRAME_BYTES
  if inner.length = 0 then none else impl.writeFramed inner

def sendMessage (impl : SerialTransport) (msg : Message UInt32) :
    Option (SerialTransport × List UInt8) :=
  let inner := encodeMessage msg MAX_FRAME_BYTES
  if inner.length = 0 then none else impl.writeFramed inner

/-- The callback of `drain_fd`. -/
def onFrame (impl : SerialTransport) (frame : List UInt8) : SerialTransport :=
  if peekTag frame = TAG_BEACON then
    match decodeBeacon frame with
    | some sv => { impl with inboxBeacons := impl.inboxBeacons ++ [sv] }
    | none => { impl with parseErrors := impl.parseErrors + 1 }
  else if peekTag frame = TAG_MESSAGE then
    match decodeMessage frame with
    | some m => { impl with inboxMessages := impl.inboxMessages ++ [m] }
    | none => { impl with parseErrors := impl.parseErrors + 1 }
  else { impl with parseErrors := impl.parseErrors + 1 }

/-- What one `read` of `drain_fd`'s loop returns, at most. -/
def READ_BYTES : ℕ := 1024

/-- The body of `drain_fd`'s loop, when `read` has returned the bytes `buf`. -/
def drainStep (impl : SerialTransport) (buf : List UInt8) : SerialTransport :=
  let impl := { impl with bytesReceived := impl.bytesReceived + UInt64.ofNat buf.length }
  let (parser, frames) := impl.parser.feed buf
  { frames.foldl onFrame impl with parser := parser }

/-- `drain_fd`, for the results of its reads. -/
def drainFd (impl : SerialTransport) (reads : List (List UInt8)) : SerialTransport :=
  reads.foldl drainStep impl

/-- `out = std::move(inbox_beacons)`. -/
def takeBeacons (impl : SerialTransport) : SerialTransport × List (StateVector UInt32) :=
  ({ impl with inboxBeacons := [] }, impl.inboxBeacons)

/-- `out = std::move(inbox_messages)`. -/
def takeMessages (impl : SerialTransport) : SerialTransport × List (Message UInt32) :=
  ({ impl with inboxMessages := [] }, impl.inboxMessages)

def pollBeacons (impl : SerialTransport) (reads : List (List UInt8)) :
    SerialTransport × List (StateVector UInt32) :=
  (impl.drainFd reads).takeBeacons

def pollMessages (impl : SerialTransport) (reads : List (List UInt8)) :
    SerialTransport × List (Message UInt32) :=
  (impl.drainFd reads).takeMessages

/-! ### Sending -/

variable (impl : SerialTransport) (sv : StateVector UInt32) (msg : Message UInt32)

/-- A frame of a datagram format fits the serial one. -/
theorem fits_encodeBeacon : Fits MAX_PAYLOAD_BYTES (encodeBeacon sv MAX_FRAME_BYTES) := by
  unfold Fits
  rw [length_encodeBeacon sv (by decide)]
  decide

theorem fits_encodeMessage : Fits MAX_PAYLOAD_BYTES (encodeMessage msg MAX_FRAME_BYTES) := by
  unfold Fits
  rw [length_encodeMessage msg (by decide)]
  decide

/-- `write_framed` of a payload it has room for. -/
theorem writeFramed_eq {payload : List UInt8} (h : payload.length ≤ MAX_FRAME_BYTES) :
    impl.writeFramed payload = some
      ({ impl with bytesSent := impl.bytesSent + UInt64.ofNat (frameBytes payload).length },
        frameBytes payload) := by
  have hmax : payload.length ≤ MAX_PAYLOAD_BYTES := h.trans (by decide)
  have hne : (frameBytes payload).length ≠ 0 := by
    rw [length_frameBytes, SerialFraming.FRAME_HEADER_BYTES]
    omega
  unfold writeFramed
  rw [encode_eq hmax (Nat.add_le_add_left h _)]
  exact if_neg hne

/-- **A beacon is always sent**, as its datagram frame in a serial frame. -/
theorem sendBeacon_eq : ∃ impl', impl.sendBeacon sv
    = some (impl', frameBytes (encodeBeacon sv MAX_FRAME_BYTES)) := by
  have hlen := length_encodeBeacon sv (show 160 ≤ MAX_FRAME_BYTES by decide)
  have hne : ¬ (encodeBeacon sv MAX_FRAME_BYTES).length = 0 := by
    rw [hlen]
    decide
  have hroom : (encodeBeacon sv MAX_FRAME_BYTES).length ≤ MAX_FRAME_BYTES := by
    rw [hlen]
    decide
  unfold sendBeacon
  simp only [if_neg hne]
  exact ⟨_, writeFramed_eq impl hroom⟩

/-- **A message is always sent**, as its datagram frame in a serial frame. -/
theorem sendMessage_eq : ∃ impl', impl.sendMessage msg
    = some (impl', frameBytes (encodeMessage msg MAX_FRAME_BYTES)) := by
  have hlen := length_encodeMessage msg (show 181 ≤ MAX_FRAME_BYTES by decide)
  have hne : ¬ (encodeMessage msg MAX_FRAME_BYTES).length = 0 := by
    rw [hlen]
    decide
  have hroom : (encodeMessage msg MAX_FRAME_BYTES).length ≤ MAX_FRAME_BYTES := by
    rw [hlen]
    decide
  unfold sendMessage
  simp only [if_neg hne]
  exact ⟨_, writeFramed_eq impl hroom⟩

/-! ### Receiving -/

/-- **Where a frame goes**: to the inbox of its channel, or into the count of errors. -/
theorem onFrame_eq (frame : List UInt8) : impl.onFrame frame =
    { impl with
      inboxBeacons := impl.inboxBeacons ++ (beaconOf frame).toList
      inboxMessages := impl.inboxMessages ++ (messageOf frame).toList
      parseErrors := if malformed frame then impl.parseErrors + 1 else impl.parseErrors } := by
  unfold onFrame malformed beaconOf messageOf
  by_cases hb : peekTag frame = TAG_BEACON
  · have hm : ¬ peekTag frame = TAG_MESSAGE := by
      rw [hb]
      decide
    rw [if_pos hb, if_pos hb, if_neg hm]
    cases decodeBeacon frame <;> simp
  · rw [if_neg hb, if_neg hb]
    by_cases hm : peekTag frame = TAG_MESSAGE
    · rw [if_pos hm, if_pos hm]
      cases decodeMessage frame <;> simp
    · rw [if_neg hm, if_neg hm]
      simp

/-- Where the frames of a read go. -/
theorem foldl_onFrame (frames : List (List UInt8)) : frames.foldl onFrame impl =
    { impl with
      inboxBeacons := impl.inboxBeacons ++ frames.filterMap beaconOf
      inboxMessages := impl.inboxMessages ++ frames.filterMap messageOf
      parseErrors := impl.parseErrors + UInt64.ofNat (frames.countP malformed) } := by
  induction frames generalizing impl with
  | nil => simp
  | cons frame frames ih =>
    rw [List.foldl_cons, ih, onFrame_eq]
    have hb : (frame :: frames).filterMap beaconOf
        = (beaconOf frame).toList ++ frames.filterMap beaconOf := by
      cases hf : beaconOf frame <;> simp [hf]
    have hm : (frame :: frames).filterMap messageOf
        = (messageOf frame).toList ++ frames.filterMap messageOf := by
      cases hf : messageOf frame <;> simp [hf]
    have he : (if malformed frame then impl.parseErrors + 1 else impl.parseErrors)
          + UInt64.ofNat (frames.countP malformed)
        = impl.parseErrors + UInt64.ofNat ((frame :: frames).countP malformed) := by
      cases hf : malformed frame
      · simp [hf]
      · simp [hf, UInt64.add_assoc, UInt64.add_comm]
    simp only [hb, hm, he, List.append_assoc]

/-- **A read**: the parser is fed, and the frames it completes go where they belong. -/
theorem drainStep_eq (buf : List UInt8) : impl.drainStep buf =
    { impl with
      parser := (impl.parser.feed buf).1
      bytesReceived := impl.bytesReceived + UInt64.ofNat buf.length
      parseErrors := impl.parseErrors
        + UInt64.ofNat ((impl.parser.feed buf).2.countP malformed)
      inboxBeacons := impl.inboxBeacons ++ (impl.parser.feed buf).2.filterMap beaconOf
      inboxMessages := impl.inboxMessages ++ (impl.parser.feed buf).2.filterMap messageOf } := by
  unfold drainStep
  simp only [foldl_onFrame]

end SerialTransport

end MithAtomas
