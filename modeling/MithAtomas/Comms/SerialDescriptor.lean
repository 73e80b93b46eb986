import MithAtomas.Comms.SerialLink

/-!
# The serial descriptor

`src/comms/serial_transport.cpp` once more, one system call at a time. `write` may take a part of
what is left, take nothing, ask to be called again, or fail; `read` may return any part of what is
there, nothing, or fail. The peer may read while a frame is half written.

While no `write` has failed this is the line of whole frames: `refines` makes a run of `Link` of it,
so that all that is known of those holds here as well (`descriptor_faithful`). A failure is never
forgotten, and what it leaves on the line is a prefix of the frame (`descriptor_stream`).
-/

namespace MithAtomas

open SerialFraming UdpWire Runs

/-- `send_beacon` or `send_message` as far as the loop of `write_framed`: the bytes in `buf`, unless
it returns `false` at once. -/
def Packet.prepare (p : Packet UInt32) : Option (List UInt8) :=
  let inner := match p with
    | beacon sv => encodeBeacon sv MAX_FRAME_BYTES
    | message msg => encodeMessage msg MAX_FRAME_BYTES
  if inner.length = 0 then none
  else
    let buf := SerialFraming.encode inner (SerialFraming.FRAME_HEADER_BYTES + MAX_FRAME_BYTES)
    if buf.length = 0 then none else some buf

/-- A call that is in the loop of `write_framed`. -/
structure Writing where
  packet : Packet UInt32
  buf : List UInt8
  written : ℕ
  deriving DecidableEq, Repr

/-- A call that has returned. -/
structure SendCall where
  packet : Packet UInt32
  written : ℕ
  returned : Bool
  deriving DecidableEq, Repr

/-- Two transports on the two ends of a line. The last four fields are the history of the run. -/
structure Descriptor where
  sender : SerialTransport := {}
  senderHealthy : Bool := true
  writing : Option Writing := none
  wire : List UInt8 := []
  peer : SerialTransport := {}
  peerHealthy : Bool := true
  ended : List SendCall := []
  received : List UInt8 := []
  polledBeacons : List (StateVector UInt32) := []
  polledMessages : List (Message UInt32) := []
  deriving DecidableEq, Repr

inductive SystemCall
  /-- a call of `send_beacon` or `send_message` begins -/
  | send (p : Packet UInt32)
  /-- `write` returns `n` -/
  | wrote (n : ℕ)
  /-- `write` fails with `EAGAIN` or `EWOULDBLOCK` -/
  | writeAgain
  /-- `write` fails otherwise -/
  | writeFailed
  /-- the loop ends, and the call returns `true` -/
  | sent
  /-- `read` returns `n` bytes -/
  | read (n : ℕ)
  /-- `read` returns 0, or fails with `EAGAIN` or `EWOULDBLOCK` -/
  | readNothing
  /-- `read` fails otherwise -/
  | readFailed
  /-- the end of `poll_beacons` -/
  | handOverBeacons
  /-- the end of `poll_messages` -/
  | handOverMessages
  deriving DecidableEq, Repr

namespace Descriptor

/-- A system call, or the end of a call, if it can happen. -/
def exec (s : Descriptor) : SystemCall → Option Descriptor
  | .send p =>
    match s.writing with
    | some _ => none
    | none =>
      match p.prepare with
      | none => some { s with ended := s.ended ++ [⟨p, 0, false⟩] }
      | some buf => some { s with writing := some ⟨p, buf, 0⟩ }
  | .wrote n =>
    match s.writing with
    | none => none
    | some w =>
      if w.written < w.buf.length ∧ n ≤ w.buf.length - w.written then
        some { s with
          writing := some { w with written := w.written + n }
          wire := s.wire ++ (w.buf.drop w.written).take n }
      else none
  | .writeAgain =>
    match s.writing with
    | none => none
    | some w => if w.written < w.buf.length then some s else none
  | .writeFailed =>
    match s.writing with
    | none => none
    | some w =>
      if w.written < w.buf.length then
        some { s with
          senderHealthy := false
          writing := none
          ended := s.ended ++ [⟨w.packet, w.written, false⟩] }
      else none
  | .sent =>
    match s.writing with
    | none => none
    | some w =>
      if w.written < w.buf.length then none
      else
        some { s with
          sender := { s.sender with bytesSent := s.sender.bytesSent + UInt64.ofNat w.buf.length }
          writing := none
          ended := s.ended ++ [⟨w.packet, w.written, true⟩] }
  | .read n =>
    if 0 < n ∧ n ≤ SerialTransport.READ_BYTES ∧ n ≤ s.wire.length then
      some { s with
        wire := s.wire.drop n
        peer := s.peer.drainStep (s.wire.take n)
        received := s.received ++ s.wire.take n }
    else none
  | .readNothing => some s
  | .readFailed => some { s with peerHealthy := false }
  | .handOverBeacons =>
    let (peer, out) := s.peer.takeBeacons
    some { s with peer := peer, polledBeacons := s.polledBeacons ++ out }
  | .handOverMessages =>
    let (peer, out) := s.peer.takeMessages
    some { s with peer := peer, polledMessages := s.polledMessages ++ out }

def Step (s : Descriptor) (c : SystemCall) (s' : Descriptor) : Prop :=
  s.exec c = some s'

/-! ### Whole frames -/

/-- The line on which the frame that is being written is there as a whole. -/
def toLink (s : Descriptor) : Link where
  sender := match s.writing with
    | none => s.sender
    | some w => { s.sender with bytesSent := s.sender.bytesSent + UInt64.ofNat w.buf.length }
  wire := s.wire ++ s.writing.elim [] fun w => w.buf.drop w.written
  peer := s.peer
  sent := s.ended.map SendCall.packet ++ (s.writing.map Writing.packet).toList
  received := s.received
  polledBeacons := s.polledBeacons
  polledMessages := s.polledMessages

/-- What a system call is on that line. -/
def toCall : SystemCall → Option Call
  | .send p => some (.send p)
  | .read n => some (.read n)
  | .handOverBeacons => some .handOverBeacons
  | .handOverMessages => some .handOverMessages
  | _ => none

theorem sendOn_eq (p : Packet UInt32) (impl : SerialTransport) : p.sendOn impl =
    p.prepare.map fun buf =>
      ({ impl with bytesSent := impl.bytesSent + UInt64.ofNat buf.length }, buf) := by
  cases p with
  | beacon sv =>
    unfold Packet.sendOn SerialTransport.sendBeacon SerialTransport.writeFramed Packet.prepare
    simp only
    split
    · rfl
    · split <;> rfl
  | message msg =>
    unfold Packet.sendOn SerialTransport.sendMessage SerialTransport.writeFramed Packet.prepare
    simp only
    split
    · rfl
    · split <;> rfl

/-- There is always a frame. -/
theorem prepare_eq (p : Packet UInt32) : p.prepare = some p.frame := by
  have hsend : ∃ sender, p.sendOn {} = some (sender, p.frame) := by
    cases p with
    | beacon sv => exact SerialTransport.sendBeacon_eq {} sv
    | message msg => exact SerialTransport.sendMessage_eq {} msg
  obtain ⟨sender, hsender⟩ := hsend
  rw [sendOn_eq] at hsender
  obtain ⟨buf, hbuf, hpair⟩ := Option.map_eq_some_iff.mp hsender
  rw [hbuf, (Prod.mk.inj hpair).2]

/-! ### Steps -/

section Cases

variable {s s' : Descriptor}

theorem step_send {p : Packet UInt32} (h : Step s (.send p) s') :
    s.writing = none ∧ s' = { s with writing := some ⟨p, p.frame, 0⟩ } := by
  cases hw : s.writing with
  | some w =>
    simp only [Step, exec, hw] at h
    cases h
  | none =>
    simp only [Step, exec, hw, prepare_eq] at h
    exact ⟨rfl, (Option.some.inj h).symm⟩

theorem step_wrote {n : ℕ} (h : Step s (.wrote n) s') :
    ∃ w, s.writing = some w ∧ n ≤ w.buf.length - w.written ∧ s' = { s with
      writing := some { w with written := w.written + n }
      wire := s.wire ++ (w.buf.drop w.written).take n } := by
  cases hw : s.writing with
  | none =>
    simp only [Step, exec, hw] at h
    cases h
  | some w =>
    simp only [Step, exec, hw] at h
    split at h
    · next hroom => exact ⟨w, rfl, hroom.2, (Option.some.inj h).symm⟩
    · cases h

theorem step_writeAgain (h : Step s .writeAgain s') : s' = s := by
  cases hw : s.writing with
  | none =>
    simp only [Step, exec, hw] at h
    cases h
  | some w =>
    simp only [Step, exec, hw] at h
    split at h
    · exact (Option.some.inj h).symm
    · cases h

theorem step_writeFailed (h : Step s .writeFailed s') :
    ∃ w, s.writing = some w ∧ w.written < w.buf.length ∧ s' = { s with
      senderHealthy := false
      writing := none
      ended := s.ended ++ [⟨w.packet, w.written, false⟩] } := by
  cases hw : s.writing with
  | none =>
    simp only [Step, exec, hw] at h
    cases h
  | some w =>
    simp only [Step, exec, hw] at h
    split at h
    · next hleft => exact ⟨w, rfl, hleft, (Option.some.inj h).symm⟩
    · cases h

theorem step_sent (h : Step s .sent s') :
    ∃ w, s.writing = some w ∧ w.buf.length ≤ w.written ∧ s' = { s with
      sender := { s.sender with bytesSent := s.sender.bytesSent + UInt64.ofNat w.buf.length }
      writing := none
      ended := s.ended ++ [⟨w.packet, w.written, true⟩] } := by
  cases hw : s.writing with
  | none =>
    simp only [Step, exec, hw] at h
    cases h
  | some w =>
    simp only [Step, exec, hw] at h
    split at h
    · cases h
    · next hall => exact ⟨w, rfl, not_lt.mp hall, (Option.some.inj h).symm⟩

theorem step_read {n : ℕ} (h : Step s (.read n) s') :
    (0 < n ∧ n ≤ SerialTransport.READ_BYTES ∧ n ≤ s.wire.length) ∧ s' = { s with
      wire := s.wire.drop n
      peer := s.peer.drainStep (s.wire.take n)
      received := s.received ++ s.wire.take n } := by
  simp only [Step, exec] at h
  split at h
  · next hroom => exact ⟨hroom, (Option.some.inj h).symm⟩
  · cases h

end Cases

/-- A send on the line of whole frames: the frame is there at once. -/
theorem link_send (l : Link) (p : Packet UInt32) : Link.Step l (.send p)
    { l with
      sender := { l.sender with bytesSent := l.sender.bytesSent + UInt64.ofNat p.frame.length }
      wire := l.wire ++ p.frame
      sent := l.sent ++ [p] } := by
  unfold Link.Step
  simp only [Link.exec, sendOn_eq, prepare_eq, Option.map_some]

/-- **A step on the line of whole frames**, or none, unless a `write` fails. -/
theorem Step.toLink {s s' : Descriptor} {c : SystemCall} (h : Step s c s') (hc : c ≠ .writeFailed) :
    match toCall c with
    | some c' => Link.Step s.toLink c' s'.toLink
    | none => s'.toLink = s.toLink := by
  cases c with
  | send p =>
    -- the line takes the whole frame at once
    obtain ⟨hw, rfl⟩ := step_send h
    have hnow : s.toLink = ⟨s.sender, s.wire, s.peer, s.ended.map SendCall.packet, s.received,
        s.polledBeacons, s.polledMessages⟩ := by
      unfold Descriptor.toLink
      simp only [hw, Option.elim_none, Option.map_none, Option.toList_none, List.append_nil]
    have hlink := link_send s.toLink p
    show Link.Step s.toLink (.send p) _
    rw [hnow] at hlink ⊢
    exact hlink
  | wrote n =>
    -- the bytes written and the bytes left are the frame as before
    obtain ⟨w, hw, hroom, rfl⟩ := step_wrote h
    show Descriptor.toLink _ = s.toLink
    unfold Descriptor.toLink
    simp only [hw, Option.elim_some, Option.map_some]
    rw [List.append_assoc, ← List.drop_drop, List.take_append_drop]
  | writeAgain => exact congrArg Descriptor.toLink (step_writeAgain h)
  | writeFailed => exact absurd rfl hc
  | sent =>
    -- nothing is left of the frame, and the call is over
    obtain ⟨w, hw, hall, rfl⟩ := step_sent h
    show Descriptor.toLink _ = s.toLink
    unfold Descriptor.toLink
    simp only [hw, Option.elim_some, Option.elim_none, Option.map_some, Option.map_none,
      List.drop_eq_nil_of_le hall, List.map_append, List.append_nil, Option.toList_none]
    rfl
  | read n =>
    -- what is read has been written, so that the rest of a frame does not matter
    obtain ⟨hroom, rfl⟩ := step_read h
    have hguard : 0 < n ∧ n ≤ SerialTransport.READ_BYTES ∧ n ≤ s.toLink.wire.length :=
      ⟨hroom.1, hroom.2.1, hroom.2.2.trans (by
        unfold Descriptor.toLink
        rw [List.length_append]
        exact Nat.le_add_right _ _)⟩
    show Link.exec s.toLink (.read n) = _
    simp only [Link.exec, if_pos hguard]
    unfold Descriptor.toLink
    simp only [List.drop_append_of_le_length hroom.2.2, List.take_append_of_le_length hroom.2.2]
  | readNothing => exact congrArg Descriptor.toLink (Option.some.inj h).symm
  | readFailed =>
    obtain rfl := Option.some.inj h
    rfl
  | handOverBeacons =>
    obtain rfl := Option.some.inj h
    rfl
  | handOverMessages =>
    obtain rfl := Option.some.inj h
    rfl

/-- A failure is not forgotten. -/
theorem healthy_of_step {s s' : Descriptor} {c : SystemCall} (h : Step s c s')
    (hhealthy : s'.senderHealthy = true) : s.senderHealthy = true ∧ c ≠ .writeFailed := by
  cases c with
  | send p =>
    obtain ⟨hw, rfl⟩ := step_send h
    exact ⟨hhealthy, nofun⟩
  | wrote n =>
    obtain ⟨w, hw, hroom, rfl⟩ := step_wrote h
    exact ⟨hhealthy, nofun⟩
  | writeAgain =>
    obtain rfl := step_writeAgain h
    exact ⟨hhealthy, nofun⟩
  | writeFailed =>
    obtain ⟨w, hw, hleft, rfl⟩ := step_writeFailed h
    cases hhealthy
  | sent =>
    obtain ⟨w, hw, hall, rfl⟩ := step_sent h
    exact ⟨hhealthy, nofun⟩
  | read n =>
    obtain ⟨hroom, rfl⟩ := step_read h
    exact ⟨hhealthy, nofun⟩
  | readNothing | readFailed | handOverBeacons | handOverMessages =>
    obtain rfl := Option.some.inj h
    exact ⟨hhealthy, nofun⟩

/-- **A healthy sender's run is one of whole frames.** -/
theorem refines {cs : List SystemCall} {s : Descriptor} (h : Run Step {} cs s)
    (hhealthy : s.senderHealthy = true) : Run Link.Step {} (cs.filterMap toCall) s.toLink := by
  induction h with
  | nil => exact Run.nil
  | @snoc cs m c s hrun hst ih =>
    obtain ⟨hm, hc⟩ := healthy_of_step hst hhealthy
    have hlink := hst.toLink hc
    rw [List.filterMap_append]
    cases hcall : toCall c with
    | none =>
      rw [hcall] at hlink
      rw [List.filterMap_cons_none hcall, List.filterMap_nil, List.append_nil, hlink]
      exact ih hm
    | some c' =>
      rw [hcall] at hlink
      rw [List.filterMap_cons_some hcall, List.filterMap_nil]
      exact (ih hm).snoc hlink

/-- The packets whose sending has begun, in order. -/
def begun (s : Descriptor) : List (Packet UInt32) :=
  s.ended.map SendCall.packet ++ (s.writing.map Writing.packet).toList

/-- What is known of a run, whatever fails. -/
structure Accounted (cs : List SystemCall) (s : Descriptor) : Prop where
  sender_healthy : s.senderHealthy = true ↔ .writeFailed ∉ cs
  peer_healthy : s.peerHealthy = true ↔ .readFailed ∉ cs
  /-- the bytes of each call, of which only the last one may still go on -/
  stream : s.received ++ s.wire = (s.ended.map fun c => c.packet.frame.take c.written).flatten ++
    s.writing.elim [] fun w => w.packet.frame.take w.written
  returned : ∀ c ∈ s.ended, c.returned = true ↔ c.packet.frame.length ≤ c.written
  all_returned : s.senderHealthy = true → ∀ c ∈ s.ended, c.returned = true
  writing : ∀ w ∈ s.writing, w.buf = w.packet.frame ∧ w.written ≤ w.buf.length
  bytes_sent : s.sender.bytesSent = UInt64.ofNat
    ((s.ended.filter SendCall.returned).map fun c => c.packet.frame.length).sum

theorem accounted_init : Accounted [] {} where
  sender_healthy := ⟨fun _ => List.not_mem_nil, fun _ => rfl⟩
  peer_healthy := ⟨fun _ => List.not_mem_nil, fun _ => rfl⟩
  stream := rfl
  returned := nofun
  all_returned := fun _ => nofun
  writing := nofun
  bytes_sent := rfl

theorem Accounted.step {cs : List SystemCall} {s s' : Descriptor} {c : SystemCall}
    (hs : Accounted cs s) (h : Step s c s') : Accounted (cs ++ [c]) s' := by
  have hstream := hs.stream
  cases c with
  | send p =>
    -- nothing is written yet
    obtain ⟨hw, rfl⟩ := step_send h
    rw [hw] at hstream
    refine ⟨by simp [hs.sender_healthy], by simp [hs.peer_healthy], hstream, hs.returned,
      hs.all_returned, ?_, hs.bytes_sent⟩
    rintro _ ⟨⟩
    exact ⟨rfl, Nat.zero_le _⟩
  | wrote n =>
    -- the bytes go to the end of the wire, and are the next of the frame
    obtain ⟨w, hw, hroom, rfl⟩ := step_wrote h
    obtain ⟨hbuf, hwritten⟩ := hs.writing w hw
    rw [hw] at hstream
    refine ⟨by simp [hs.sender_healthy], by simp [hs.peer_healthy], ?_, hs.returned,
      hs.all_returned, ?_, hs.bytes_sent⟩
    · show s.received ++ (s.wire ++ (w.buf.drop w.written).take n) =
        _ ++ w.packet.frame.take (w.written + n)
      rw [← List.append_assoc, hstream, List.append_assoc, hbuf, List.take_add]
      rfl
    · rintro _ ⟨⟩
      exact ⟨hbuf, by
        show w.written + n ≤ w.buf.length
        omega⟩
  | writeAgain =>
    -- EAGAIN changes nothing
    obtain rfl := step_writeAgain h
    exact ⟨by simp [hs.sender_healthy], by simp [hs.peer_healthy], hstream, hs.returned,
      hs.all_returned, hs.writing, hs.bytes_sent⟩
  | writeFailed =>
    -- the call ends with what it has written, less than the frame, and returns `false`
    obtain ⟨w, hw, hleft, rfl⟩ := step_writeFailed h
    obtain ⟨hbuf, hwritten⟩ := hs.writing w hw
    rw [hw] at hstream
    refine ⟨by simp, by simp [hs.peer_healthy], ?_, ?_, nofun, nofun, ?_⟩
    · show s.received ++ s.wire =
        ((s.ended ++ [_]).map fun c : SendCall => c.packet.frame.take c.written).flatten ++ []
      rw [hstream, List.map_append, List.flatten_append, List.append_nil]
      simp
    · intro c hc
      rcases List.mem_append.mp hc with hc | hc
      · exact hs.returned c hc
      · rw [List.mem_singleton.mp hc]
        rw [hbuf] at hleft
        exact ⟨nofun, fun hle => absurd hle (not_le.mpr hleft)⟩
    · show s.sender.bytesSent = _
      rw [hs.bytes_sent, List.filter_append]
      simp
  | sent =>
    -- the call ends with the whole frame, and only such a call counts in `bytes_sent`
    obtain ⟨w, hw, hall, rfl⟩ := step_sent h
    obtain ⟨hbuf, hwritten⟩ := hs.writing w hw
    rw [hw] at hstream
    refine ⟨by simp [hs.sender_healthy], by simp [hs.peer_healthy], ?_, ?_, ?_, nofun, ?_⟩
    · show s.received ++ s.wire =
        ((s.ended ++ [_]).map fun c : SendCall => c.packet.frame.take c.written).flatten ++ []
      rw [hstream, List.map_append, List.flatten_append, List.append_nil]
      simp
    · intro c hc
      rcases List.mem_append.mp hc with hc | hc
      · exact hs.returned c hc
      · rw [List.mem_singleton.mp hc]
        rw [hbuf] at hall
        exact ⟨fun _ => hall, fun _ => rfl⟩
    · intro hhealthy c hc
      rcases List.mem_append.mp hc with hc | hc
      · exact hs.all_returned hhealthy c hc
      · rw [List.mem_singleton.mp hc]
    · show s.sender.bytesSent + UInt64.ofNat w.buf.length = _
      rw [hs.bytes_sent, List.filter_append, ← UInt64.ofNat_add, hbuf]
      simp
  | read n =>
    -- the bytes move from the wire to what was received
    obtain ⟨hroom, rfl⟩ := step_read h
    refine ⟨by simp [hs.sender_healthy], by simp [hs.peer_healthy], ?_, hs.returned,
      hs.all_returned, hs.writing, hs.bytes_sent⟩
    show s.received ++ s.wire.take n ++ s.wire.drop n = _
    rw [List.append_assoc, List.take_append_drop]
    exact hstream
  -- the rest is after the wire
  | readNothing | handOverBeacons | handOverMessages =>
    obtain rfl := Option.some.inj h
    exact ⟨by simp [hs.sender_healthy], by simp [hs.peer_healthy], hstream, hs.returned,
      hs.all_returned, hs.writing, hs.bytes_sent⟩
  | readFailed =>
    obtain rfl := Option.some.inj h
    exact ⟨by simp [hs.sender_healthy], by simp, hstream, hs.returned, hs.all_returned,
      hs.writing, hs.bytes_sent⟩

theorem accounted {cs : List SystemCall} {s : Descriptor} (h : Run Step {} cs s) :
    Accounted cs s := by
  induction h with
  | nil => exact accounted_init
  | snoc _ hst ih => exact ih.step hst

/-! ### Runs -/

/-- **What the peer gets** while no `write` fails for good: each channel has exactly the packets of
its kind whose frames have been read completely, in order, however the system calls cut them, and
every call that has returned has returned `true`. -/
theorem descriptor_faithful {cs : List SystemCall} {s : Descriptor} (h : Run Step {} cs s)
    (hwrites : .writeFailed ∉ cs) :
    s.polledBeacons ++ s.peer.inboxBeacons
      = (fullyRead Packet.frame s.begun s.received.length).filterMap Packet.beacon? ∧
    s.polledMessages ++ s.peer.inboxMessages
      = (fullyRead Packet.frame s.begun s.received.length).filterMap Packet.message? ∧
    s.peer.parseErrors = 0 ∧ ∀ c ∈ s.ended, c.returned = true := by
  have haccounted := accounted h
  have hhealthy := haccounted.sender_healthy.mpr hwrites
  have htracks : Link.Tracks s.toLink :=
    (refines h hhealthy).invariant (fun _ _ _ => Link.tracks_step) Link.tracks_init
  have hbeacons := htracks.beacons
  have hmessages := htracks.messages
  have herrors := htracks.errors
  rw [htracks.frames_eq] at hbeacons hmessages herrors
  rw [filterMap_beaconOf] at hbeacons
  rw [filterMap_messageOf] at hmessages
  rw [countP_malformed] at herrors
  exact ⟨hbeacons, hmessages, herrors, haccounted.all_returned hhealthy⟩

/-- A beacon whose frame is written and read in pieces. -/
theorem one_beacon_in_pieces : ∃ s,
    [SystemCall.send (.beacon .empty), .wrote 10, .writeAgain, .read 4, .wrote 0, .wrote 154, .sent,
      .readFailed, .read 160, .handOverBeacons].foldlM exec {} = some s ∧
    s.polledBeacons ++ s.peer.inboxBeacons
      = (fullyRead Packet.frame s.begun s.received.length).filterMap Packet.beacon? ∧
    s.polledMessages ++ s.peer.inboxMessages
      = (fullyRead Packet.frame s.begun s.received.length).filterMap Packet.message? ∧
    s.peer.parseErrors = 0 ∧ ∀ c ∈ s.ended, c.returned = true := by
  have hrun : ([SystemCall.send (.beacon .empty), .wrote 10, .writeAgain, .read 4, .wrote 0,
      .wrote 154, .sent, .readFailed, .read 160, .handOverBeacons].foldlM exec {}).isSome
        = true := by
    decide +kernel
  obtain ⟨s, hs⟩ := Option.isSome_iff_exists.mp hrun
  exact ⟨s, hs, descriptor_faithful (Run.of_foldlM (fun h => h) hs) (by simp)⟩

/-- **What failures leave.** In every run each side is healthy until a call of its own fails for
good, and then never again. The line has, in order, the frames of the calls that returned `true`, as
a whole, and of each other call a proper prefix of its frame; `bytes_sent` counts the former. -/
theorem descriptor_stream {cs : List SystemCall} {s : Descriptor} (h : Run Step {} cs s) :
    (s.senderHealthy = true ↔ .writeFailed ∉ cs) ∧ (s.peerHealthy = true ↔ .readFailed ∉ cs) ∧
    s.received ++ s.wire = (s.ended.map fun c => c.packet.frame.take c.written).flatten ++
      s.writing.elim [] (fun w => w.packet.frame.take w.written) ∧
    (∀ c ∈ s.ended, c.returned = true ↔ c.packet.frame.length ≤ c.written) ∧
    s.sender.bytesSent = UInt64.ofNat
      ((s.ended.filter SendCall.returned).map fun c => c.packet.frame.length).sum :=
  have haccounted := accounted h
  ⟨haccounted.sender_healthy, haccounted.peer_healthy, haccounted.stream, haccounted.returned,
    haccounted.bytes_sent⟩

/-- A call that fails, and one that does not. -/
theorem one_failure_in_stream : ∃ s,
    [SystemCall.send (.beacon .empty), .wrote 10, .writeFailed, .send (.beacon .empty), .wrote 164,
      .sent, .read 12].foldlM exec {} = some s ∧ ¬ s.senderHealthy = true ∧ s.peerHealthy = true ∧
    s.received ++ s.wire = (s.ended.map fun c => c.packet.frame.take c.written).flatten ++
      s.writing.elim [] (fun w => w.packet.frame.take w.written) := by
  have hrun : ([SystemCall.send (.beacon .empty), .wrote 10, .writeFailed, .send (.beacon .empty),
      .wrote 164, .sent, .read 12].foldlM exec {}).isSome = true := by
    decide +kernel
  obtain ⟨s, hs⟩ := Option.isSome_iff_exists.mp hrun
  obtain ⟨hsender, hpeer, hstream, -⟩ := descriptor_stream (Run.of_foldlM (fun h => h) hs)
  exact ⟨s, hs, fun hhealthy => hsender.mp hhealthy (by simp), hpeer.mpr (by simp), hstream⟩

end Descriptor

end MithAtomas
