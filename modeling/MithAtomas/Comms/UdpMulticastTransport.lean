import MithAtomas.Comms.UdpWire

/-!
# The UDP multicast transport

`src/comms/udp_multicast_transport.cpp`: every packet is one datagram to the group, and every poll
drains the socket into two inboxes and hands one of them over. A socket is the list of the datagrams
that wait in it; `recv` takes the first of them, cut off at the size of the buffer, and `EAGAIN` is
the empty list. The health of the transport, which only failing calls change, is left out.

The group hears its own datagrams, so a drain skips what was sent under `config.self_id`. That id is
the one the transport was opened with. A datagram of length zero ends a drain, with the rest of the
socket unread (`readable`, `drainSocket_eq`).
-/

namespace MithAtomas

open UdpWire

/-- `UDPMulticastTransport::Impl`, without the descriptor and its health. -/
structure UdpMulticastTransport where
  /-- `config.self_id` -/
  selfId : HierarchicalID
  inboxBeacons : List (StateVector UInt32) := []
  inboxMessages : List (Message UInt32) := []
  bytesSent : UInt64 := 0
  bytesReceived : UInt64 := 0
  parseErrors : UInt64 := 0
  deriving DecidableEq, Repr

namespace UdpMulticastTransport

/-- `send_beacon`: the transport after it, and the datagram. -/
def sendBeacon (impl : UdpMulticastTransport) (sv : StateVector UInt32) :
    Option (UdpMulticastTransport × List UInt8) :=
  let buf := encodeBeacon sv MAX_FRAME_BYTES
  if buf.length = 0 then none
  else some ({ impl with bytesSent := impl.bytesSent + UInt64.ofNat buf.length }, buf)

def sendMessage (impl : UdpMulticastTransport) (msg : Message UInt32) :
    Option (UdpMulticastTransport × List UInt8) :=
  let buf := encodeMessage msg MAX_FRAME_BYTES
  if buf.length = 0 then none
  else some ({ impl with bytesSent := impl.bytesSent + UInt64.ofNat buf.length }, buf)

/-- The body of `drain_socket`'s loop, when `recv` has returned the bytes `buf`. -/
def onDatagram (impl : UdpMulticastTransport) (buf : List UInt8) : UdpMulticastTransport :=
  let impl := { impl with bytesReceived := impl.bytesReceived + UInt64.ofNat buf.length }
  if peekTag buf = TAG_BEACON then
    match decodeBeacon buf with
    | none => { impl with parseErrors := impl.parseErrors + 1 }
    | some sv =>
      -- multicast loops back: the own beacons are dropped
      if sv.id = impl.selfId then impl
      else { impl with inboxBeacons := impl.inboxBeacons ++ [sv] }
  else if peekTag buf = TAG_MESSAGE then
    match decodeMessage buf with
    | none => { impl with parseErrors := impl.parseErrors + 1 }
    | some msg =>
      if msg.sender = impl.selfId then impl
      else { impl with inboxMessages := impl.inboxMessages ++ [msg] }
  else { impl with parseErrors := impl.parseErrors + 1 }

/-- `drain_socket`, with what it leaves in the socket. -/
def drainSocket (impl : UdpMulticastTransport) :
    List (List UInt8) → UdpMulticastTransport × List (List UInt8)
  | [] => (impl, [])
  | datagram :: socket =>
    let buf := datagram.take MAX_FRAME_BYTES
    if buf.length = 0 then (impl, socket)
    else (impl.onDatagram buf).drainSocket socket

/-- `poll_beacons`: the transport and the socket after it, and the beacons. -/
def pollBeacons (impl : UdpMulticastTransport) (socket : List (List UInt8)) :
    UdpMulticastTransport × List (List UInt8) × List (StateVector UInt32) :=
  let (impl, socket) := impl.drainSocket socket
  ({ impl with inboxBeacons := [] }, socket, impl.inboxBeacons)

/-- `poll_messages`: the transport and the socket after it, and the messages. -/
def pollMessages (impl : UdpMulticastTransport) (socket : List (List UInt8)) :
    UdpMulticastTransport × List (List UInt8) × List (Message UInt32) :=
  let (impl, socket) := impl.drainSocket socket
  ({ impl with inboxMessages := [] }, socket, impl.inboxMessages)

/-! ### A drain -/

variable (impl : UdpMulticastTransport)

/-- What `recv` returns of a socket until a drain ends. -/
def readable (socket : List (List UInt8)) : List (List UInt8) :=
  (socket.map fun datagram => datagram.take MAX_FRAME_BYTES).takeWhile fun buf => buf ≠ []

/-- What a drain leaves in the socket: what is behind an empty datagram. -/
def unread (socket : List (List UInt8)) : List (List UInt8) :=
  socket.drop ((readable socket).length + 1)

/-- The beacon of somebody else in a datagram. -/
def foreignBeacon (selfId : HierarchicalID) (buf : List UInt8) : Option (StateVector UInt32) :=
  (beaconOf buf).filter fun sv => sv.id ≠ selfId

/-- The message of somebody else in a datagram. -/
def foreignMessage (selfId : HierarchicalID) (buf : List UInt8) : Option (Message UInt32) :=
  (messageOf buf).filter fun msg => msg.sender ≠ selfId

/-- **Where a datagram goes**: to the inbox of its channel if it is somebody else's, into the count
of errors if it carries nothing, and nowhere if it is one's own. -/
theorem onDatagram_eq (buf : List UInt8) : impl.onDatagram buf =
    { impl with
      inboxBeacons := impl.inboxBeacons ++ (foreignBeacon impl.selfId buf).toList
      inboxMessages := impl.inboxMessages ++ (foreignMessage impl.selfId buf).toList
      bytesReceived := impl.bytesReceived + UInt64.ofNat buf.length
      parseErrors := if malformed buf then impl.parseErrors + 1 else impl.parseErrors } := by
  unfold onDatagram malformed foreignBeacon foreignMessage
  -- the tag decides; a payload that is the own one is left out
  by_cases hb : peekTag buf = TAG_BEACON
  · have hm : ¬ peekTag buf = TAG_MESSAGE := by
      rw [hb]
      decide
    have hbeacon : beaconOf buf = decodeBeacon buf := if_pos hb
    have hmessage : messageOf buf = none := if_neg hm
    rw [hbeacon, hmessage]
    simp only [hb, if_true]
    cases decodeBeacon buf with
    | none => simp
    | some sv => by_cases hself : sv.id = impl.selfId <;> simp [hself, Option.filter]
  · have hbeacon : beaconOf buf = none := if_neg hb
    rw [hbeacon]
    simp only [hb, if_false]
    by_cases hm : peekTag buf = TAG_MESSAGE
    · have hmessage : messageOf buf = decodeMessage buf := if_pos hm
      rw [hmessage]
      simp only [hm, if_true]
      cases decodeMessage buf with
      | none => simp
      | some msg => by_cases hself : msg.sender = impl.selfId <;> simp [hself, Option.filter]
    · have hmessage : messageOf buf = none := if_neg hm
      rw [hmessage]
      simp [hm]

/-- **A drain**: what it reads goes where it belongs. -/
theorem drainSocket_eq (socket : List (List UInt8)) :
    (impl.drainSocket socket).1.selfId = impl.selfId ∧
    (impl.drainSocket socket).1.inboxBeacons
      = impl.inboxBeacons ++ (readable socket).filterMap (foreignBeacon impl.selfId) ∧
    (impl.drainSocket socket).1.inboxMessages
      = impl.inboxMessages ++ (readable socket).filterMap (foreignMessage impl.selfId) ∧
    (impl.drainSocket socket).2 = unread socket := by
  induction socket generalizing impl with
  | nil => simp [drainSocket, readable, unread]
  | cons datagram socket ih =>
    by_cases hempty : datagram.take MAX_FRAME_BYTES = []
    · -- an empty datagram ends the drain
      have hread : readable (datagram :: socket) = [] := by
        simp [readable, hempty]
      simp [drainSocket, unread, hread, hempty]
    · have hread : readable (datagram :: socket)
          = datagram.take MAX_FRAME_BYTES :: readable socket := by
        simp [readable, hempty]
      have hlen : ¬ (datagram.take MAX_FRAME_BYTES).length = 0 := by
        rwa [List.length_eq_zero_iff]
      obtain ⟨hself, hbeacons, hmessages, hrest⟩ :=
        ih (impl.onDatagram (datagram.take MAX_FRAME_BYTES))
      rw [drainSocket]
      simp only [if_neg hlen]
      rw [hself, hbeacons, hmessages, hrest, unread, unread, hread, onDatagram_eq]
      refine ⟨rfl, ?_, ?_, ?_⟩
      · cases hf : foreignBeacon impl.selfId (datagram.take MAX_FRAME_BYTES) <;> simp [hf]
      · cases hf : foreignMessage impl.selfId (datagram.take MAX_FRAME_BYTES) <;> simp [hf]
      · rfl

/-- **`poll_beacons`** hands over all beacons that waited, and keeps the messages. -/
theorem pollBeacons_eq (socket : List (List UInt8)) :
    (impl.pollBeacons socket).1.selfId = impl.selfId ∧
    (impl.pollBeacons socket).1.inboxBeacons = [] ∧
    (impl.pollBeacons socket).1.inboxMessages
      = impl.inboxMessages ++ (readable socket).filterMap (foreignMessage impl.selfId) ∧
    (impl.pollBeacons socket).2.1 = unread socket ∧
    (impl.pollBeacons socket).2.2
      = impl.inboxBeacons ++ (readable socket).filterMap (foreignBeacon impl.selfId) := by
  obtain ⟨hself, hbeacons, hmessages, hrest⟩ := impl.drainSocket_eq socket
  exact ⟨hself, rfl, hmessages, hrest, hbeacons⟩

/-- **`poll_messages`** hands over all messages that waited, and keeps the beacons. -/
theorem pollMessages_eq (socket : List (List UInt8)) :
    (impl.pollMessages socket).1.selfId = impl.selfId ∧
    (impl.pollMessages socket).1.inboxBeacons
      = impl.inboxBeacons ++ (readable socket).filterMap (foreignBeacon impl.selfId) ∧
    (impl.pollMessages socket).1.inboxMessages = [] ∧
    (impl.pollMessages socket).2.1 = unread socket ∧
    (impl.pollMessages socket).2.2
      = impl.inboxMessages ++ (readable socket).filterMap (foreignMessage impl.selfId) := by
  obtain ⟨hself, hbeacons, hmessages, hrest⟩ := impl.drainSocket_eq socket
  exact ⟨hself, hbeacons, rfl, hrest, hmessages⟩

end UdpMulticastTransport

end MithAtomas
