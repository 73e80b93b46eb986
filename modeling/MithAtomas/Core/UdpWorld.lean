import MithAtomas.Comms.UdpMulticastTransport
import MithAtomas.Core.BeaconTick

/-!
# A robot on the UDP transport

A `UdpPort` is a transport with its socket. In one tick `BeaconSystem` polls it twice, beacons
first, and each poll drains the socket for both channels; what arrives between the two polls is
`late` (`UdpPort.poll`). The transport carries floats as their bits, and both channels of the world
are the one transport (`World.onUdp`).

`UdpPort.Holds P Q` says of all that waits in the port that it was sent as `P` and `Q` allow;
`UdpPort.Holds.poll` hands this on to what the polls return, without what the port skips as its own.
-/

namespace MithAtomas

open UdpWire UdpMulticastTransport

variable {F U : Type}

section Bits

variable [FloatScalar F]

/-- The beacon with these bit patterns. -/
def StateVector.ofBits (sv : StateVector UInt32) : StateVector F where
  id := sv.id
  position := ⟨FloatScalar.ofBits sv.position.x, FloatScalar.ofBits sv.position.y,
    FloatScalar.ofBits sv.position.z⟩
  velocity := ⟨FloatScalar.ofBits sv.velocity.vx, FloatScalar.ofBits sv.velocity.vy,
    FloatScalar.ofBits sv.velocity.vz⟩
  health := sv.health
  role := sv.role
  state := sv.state
  tick := sv.tick
  syncTimeS := FloatScalar.ofBits sv.syncTimeS
  senderPubkey := sv.senderPubkey
  signature := sv.signature

def Message.bits (m : Message F) : Message UInt32 :=
  { m with timestampS := FloatScalar.toBits m.timestampS }

def Message.ofBits (m : Message UInt32) : Message F :=
  { m with timestampS := FloatScalar.ofBits m.timestampS }

/-- The datagram of a packet. -/
def Packet.onWire : Packet F → List UInt8
  | .beacon sv => Packet.datagram (.beacon sv.bits)
  | .message msg => Packet.datagram (.message msg.bits)

end Bits

/-- A transport and its socket. -/
structure UdpPort where
  transport : UdpMulticastTransport
  /-- the datagrams that wait -/
  socket : List (List UInt8) := []
  deriving DecidableEq, Repr

namespace UdpPort

/-- Datagrams come to the socket. -/
def arrive (port : UdpPort) (datagrams : List (List UInt8)) : UdpPort :=
  { port with socket := port.socket ++ datagrams }

/-- `poll_beacons` and then `poll_messages`, with what they return. -/
def poll (port : UdpPort) (late : List (List UInt8)) :
    UdpPort × List (StateVector UInt32) × List (Message UInt32) :=
  let (transport, socket, beacons) := port.transport.pollBeacons port.socket
  let (transport, socket, messages) := transport.pollMessages (socket ++ late)
  (⟨transport, socket⟩, beacons, messages)

/-- **The two polls.** The first returns the beacons that waited, the second all messages; beacons
that only the second has drained stay in the inbox. -/
theorem poll_eq (port : UdpPort) (late : List (List UInt8)) :
    (port.poll late).2.1 = port.transport.inboxBeacons
      ++ (readable port.socket).filterMap (foreignBeacon port.transport.selfId) ∧
    (port.poll late).2.2 = port.transport.inboxMessages
      ++ (readable port.socket).filterMap (foreignMessage port.transport.selfId)
      ++ (readable (unread port.socket ++ late)).filterMap
        (foreignMessage port.transport.selfId) ∧
    (port.poll late).1.transport.selfId = port.transport.selfId ∧
    (port.poll late).1.transport.inboxBeacons
      = (readable (unread port.socket ++ late)).filterMap
        (foreignBeacon port.transport.selfId) ∧
    (port.poll late).1.transport.inboxMessages = [] ∧
    (port.poll late).1.socket = unread (unread port.socket ++ late) := by
  -- two drains, one for the beacons and one for the messages
  obtain ⟨hself, hbeacons, hmessages, hrest, hpolled⟩ := port.transport.pollBeacons_eq port.socket
  obtain ⟨hself', hbeacons', hmessages', hrest', hpolled'⟩ :=
    (port.transport.pollBeacons port.socket).1.pollMessages_eq (unread port.socket ++ late)
  rw [hself] at hself' hbeacons' hpolled'
  rw [hbeacons, List.nil_append] at hbeacons'
  rw [hmessages] at hpolled'
  have hpoll : port.poll late =
      let after := (port.transport.pollBeacons port.socket).1.pollMessages
        ((port.transport.pollBeacons port.socket).2.1 ++ late)
      (⟨after.1, after.2.1⟩, (port.transport.pollBeacons port.socket).2.2, after.2.2) := rfl
  rw [hpoll, hrest]
  exact ⟨hpolled, hpolled', hself', hbeacons', hmessages', hrest'⟩

/-! ### What waits in a port -/

variable {P : StateVector UInt32 → Prop} {Q : Message UInt32 → Prop}

/-- A datagram carries only what `P` and `Q` allow. -/
def Carries (P : StateVector UInt32 → Prop) (Q : Message UInt32 → Prop) (datagram : List UInt8) :
    Prop :=
  (∀ sv, beaconOf (datagram.take MAX_FRAME_BYTES) = some sv → P sv) ∧
    ∀ msg, messageOf (datagram.take MAX_FRAME_BYTES) = some msg → Q msg

/-- All that waits in a port is allowed, and what it has read already is somebody else's. -/
structure Holds (P : StateVector UInt32 → Prop) (Q : Message UInt32 → Prop) (port : UdpPort) :
    Prop where
  beacons : ∀ sv ∈ port.transport.inboxBeacons, P sv ∧ sv.id ≠ port.transport.selfId
  messages : ∀ msg ∈ port.transport.inboxMessages, Q msg ∧ msg.sender ≠ port.transport.selfId
  datagrams : ∀ datagram ∈ port.socket, Carries P Q datagram

theorem Carries.mono {P' : StateVector UInt32 → Prop} {Q' : Message UInt32 → Prop}
    (hP : ∀ sv, P sv → P' sv) (hQ : ∀ msg, Q msg → Q' msg) {datagram : List UInt8}
    (h : Carries P Q datagram) : Carries P' Q' datagram :=
  ⟨fun sv hsv => hP sv (h.1 sv hsv), fun msg hmsg => hQ msg (h.2 msg hmsg)⟩

theorem Holds.mono {P' : StateVector UInt32 → Prop} {Q' : Message UInt32 → Prop}
    (hP : ∀ sv, P sv → P' sv) (hQ : ∀ msg, Q msg → Q' msg) {port : UdpPort}
    (h : port.Holds P Q) : port.Holds P' Q' where
  beacons := fun sv hsv => ⟨hP sv (h.beacons sv hsv).1, (h.beacons sv hsv).2⟩
  messages := fun msg hmsg => ⟨hQ msg (h.messages msg hmsg).1, (h.messages msg hmsg).2⟩
  datagrams := fun datagram hd => (h.datagrams datagram hd).mono hP hQ

theorem Holds.arrive {port : UdpPort} (h : port.Holds P Q) {datagrams : List (List UInt8)}
    (hnew : ∀ datagram ∈ datagrams, Carries P Q datagram) : (port.arrive datagrams).Holds P Q where
  beacons := h.beacons
  messages := h.messages
  datagrams := by
    intro datagram hd
    rcases List.mem_append.mp hd with hold | hlate
    · exact h.datagrams datagram hold
    · exact hnew datagram hlate

/-- What is read of a socket. -/
theorem mem_readable {buf : List UInt8} {socket : List (List UInt8)} (h : buf ∈ readable socket) :
    ∃ datagram ∈ socket, buf = datagram.take MAX_FRAME_BYTES := by
  obtain ⟨datagram, hd, hbuf⟩ := List.mem_map.mp (List.takeWhile_subset _ h)
  exact ⟨datagram, hd, hbuf.symm⟩

theorem mem_foreignBeacons {selfId : HierarchicalID} {socket : List (List UInt8)}
    (h : ∀ datagram ∈ socket, Carries P Q datagram) {sv : StateVector UInt32}
    (hsv : sv ∈ (readable socket).filterMap (foreignBeacon selfId)) : P sv ∧ sv.id ≠ selfId := by
  obtain ⟨buf, hbuf, hforeign⟩ := List.mem_filterMap.mp hsv
  obtain ⟨datagram, hd, rfl⟩ := mem_readable hbuf
  obtain ⟨hcarried, hother⟩ := Option.filter_eq_some_iff.mp hforeign
  exact ⟨(h datagram hd).1 sv hcarried, of_decide_eq_true hother⟩

theorem mem_foreignMessages {selfId : HierarchicalID} {socket : List (List UInt8)}
    (h : ∀ datagram ∈ socket, Carries P Q datagram) {msg : Message UInt32}
    (hmsg : msg ∈ (readable socket).filterMap (foreignMessage selfId)) :
    Q msg ∧ msg.sender ≠ selfId := by
  obtain ⟨buf, hbuf, hforeign⟩ := List.mem_filterMap.mp hmsg
  obtain ⟨datagram, hd, rfl⟩ := mem_readable hbuf
  obtain ⟨hcarried, hother⟩ := Option.filter_eq_some_iff.mp hforeign
  exact ⟨(h datagram hd).2 msg hcarried, of_decide_eq_true hother⟩

/-- **What the polls return is allowed**, and somebody else's; and so is what still waits. -/
theorem Holds.poll {port : UdpPort} (h : port.Holds P Q) {late : List (List UInt8)}
    (hlate : ∀ datagram ∈ late, Carries P Q datagram) :
    (port.poll late).1.Holds P Q ∧
      (∀ sv ∈ (port.poll late).2.1, P sv ∧ sv.id ≠ port.transport.selfId) ∧
      ∀ msg ∈ (port.poll late).2.2, Q msg ∧ msg.sender ≠ port.transport.selfId := by
  obtain ⟨hbeacons, hmessages, hself, hkept, hnone, hsocket⟩ := port.poll_eq late
  -- the second drain reads what the first has left, and what has come since
  have hrest : ∀ datagram ∈ unread port.socket ++ late, Carries P Q datagram := by
    intro datagram hd
    rcases List.mem_append.mp hd with hold | hnew
    · exact h.datagrams datagram (List.mem_of_mem_drop hold)
    · exact hlate datagram hnew
  refine ⟨⟨?_, ?_, ?_⟩, ?_, ?_⟩
  · rw [hkept, hself]
    exact fun sv hsv => mem_foreignBeacons hrest hsv
  · rw [hnone]
    rintro msg ⟨⟩
  · rw [hsocket]
    exact fun datagram hd => hrest datagram (List.mem_of_mem_drop hd)
  · rw [hbeacons]
    intro sv hsv
    rcases List.mem_append.mp hsv with hinbox | hnew
    · exact h.beacons sv hinbox
    · exact mem_foreignBeacons h.datagrams hnew
  · rw [hmessages]
    intro msg hmsg
    rcases List.mem_append.mp hmsg with hfirst | hsecond
    · rcases List.mem_append.mp hfirst with hinbox | hnew
      · exact h.messages msg hinbox
      · exact mem_foreignMessages h.datagrams hnew
    · exact mem_foreignMessages hrest hsecond

end UdpPort

variable [FloatScalar F]

/-- The world as `BeaconSystem` finds it on a UDP transport: both channels are supported, and the
polls return `beacons` and `messages`. Nothing has been sent yet. -/
def World.onUdp (w : World F U) (beacons : List (StateVector UInt32))
    (messages : List (Message UInt32)) : World F U :=
  { w with
    beaconTransport := some ⟨true⟩
    messageTransport := some ⟨true⟩
    rxBeacons := beacons.map .ofBits
    rxMessages := messages.map .ofBits
    sent := [] }

/-- The datagram of a packet fits the receiver's buffer. -/
theorem Packet.take_onWire (p : Packet F) : p.onWire.take MAX_FRAME_BYTES = p.onWire := by
  apply List.take_of_length_le
  cases p with
  | beacon sv =>
    rw [onWire, Packet.datagram, length_encodeBeacon _ (by decide)]
    decide
  | message msg =>
    rw [onWire, Packet.datagram, length_encodeMessage _ (by decide)]
    decide

theorem Packet.onWire_ne_nil (p : Packet F) : p.onWire ≠ [] := by
  rw [← List.length_pos_iff]
  cases p with
  | beacon sv =>
    rw [onWire, Packet.datagram, length_encodeBeacon _ (by decide)]
    decide
  | message msg =>
    rw [onWire, Packet.datagram, length_encodeMessage _ (by decide)]
    decide

/-- A drain reads a socket of packets to its end. -/
theorem UdpPort.readable_onWire (ps : List (Packet F)) :
    readable (ps.map Packet.onWire) = ps.map Packet.onWire := by
  unfold readable
  rw [List.map_map]
  have hmap : ps.map ((fun datagram => datagram.take MAX_FRAME_BYTES) ∘ Packet.onWire)
      = ps.map Packet.onWire := List.map_congr_left fun p _ => p.take_onWire
  rw [hmap, List.takeWhile_eq_self_iff]
  intro buf hbuf
  obtain ⟨p, -, rfl⟩ := List.mem_map.mp hbuf
  exact decide_eq_true p.onWire_ne_nil

theorem UdpPort.unread_onWire (ps : List (Packet F)) : unread (ps.map Packet.onWire) = [] := by
  unfold unread
  rw [readable_onWire]
  exact List.drop_of_length_le (Nat.le_succ _)

/-- The beacons in a socket of packets. -/
theorem UdpPort.foreignBeacons_onWire (selfId : HierarchicalID) (ps : List (Packet F)) :
    (readable (ps.map Packet.onWire)).filterMap (foreignBeacon selfId)
      = ((ps.filterMap Packet.beacon?).filter fun b => b.id ≠ selfId).map StateVector.bits := by
  rw [readable_onWire]
  induction ps with
  | nil => rfl
  | cons p ps ih =>
    rw [List.map_cons]
    cases p with
    | beacon b =>
      -- a beacon is read as it was sent, and kept unless it is the own one
      have hcarried : foreignBeacon selfId (Packet.beacon b).onWire
          = if b.id = selfId then none else some b.bits := by
        unfold foreignBeacon
        rw [Packet.onWire, Packet.datagram, (UdpWire.carries_beacon b.bits).1]
        by_cases hself : b.id = selfId
        · simp [hself, StateVector.bits]
        · simp [hself, StateVector.bits, Option.filter]
      by_cases hself : b.id = selfId
      · rw [if_pos hself] at hcarried
        rw [List.filterMap_cons_none hcarried, ih]
        simp [hself, Packet.beacon?]
      · rw [if_neg hself] at hcarried
        rw [List.filterMap_cons_some hcarried, ih]
        simp [hself, Packet.beacon?]
    | message m =>
      -- a message has another tag
      have hcarried : foreignBeacon selfId (Packet.message m).onWire = none := by
        unfold foreignBeacon
        rw [Packet.onWire, Packet.datagram, (UdpWire.carries_message m.bits).2]
        rfl
      rw [List.filterMap_cons_none hcarried, ih]
      rfl

/-- The messages in a socket of packets. -/
theorem UdpPort.foreignMessages_onWire (selfId : HierarchicalID) (ps : List (Packet F)) :
    (readable (ps.map Packet.onWire)).filterMap (foreignMessage selfId)
      = ((ps.filterMap Packet.message?).filter fun m => m.sender ≠ selfId).map Message.bits := by
  rw [readable_onWire]
  induction ps with
  | nil => rfl
  | cons p ps ih =>
    rw [List.map_cons]
    cases p with
    | beacon b =>
      have hcarried : foreignMessage selfId (Packet.beacon b).onWire = none := by
        unfold foreignMessage
        rw [Packet.onWire, Packet.datagram, (UdpWire.carries_beacon b.bits).2]
        rfl
      rw [List.filterMap_cons_none hcarried, ih]
      rfl
    | message m =>
      have hcarried : foreignMessage selfId (Packet.message m).onWire
          = if m.sender = selfId then none else some m.bits := by
        unfold foreignMessage
        rw [Packet.onWire, Packet.datagram, (UdpWire.carries_message m.bits).1]
        by_cases hself : m.sender = selfId
        · simp [hself, Message.bits]
        · simp [hself, Message.bits, Option.filter]
      by_cases hself : m.sender = selfId
      · rw [if_pos hself] at hcarried
        rw [List.filterMap_cons_none hcarried, ih]
        simp [hself, Packet.message?]
      · rw [if_neg hself] at hcarried
        rw [List.filterMap_cons_some hcarried, ih]
        simp [hself, Packet.message?]

/-- What a beacon's datagram carries. -/
theorem UdpPort.carries_beacon {P : StateVector UInt32 → Prop} {Q : Message UInt32 → Prop}
    {sv : StateVector F} (h : P sv.bits) : Carries P Q (Packet.beacon sv).onWire := by
  obtain ⟨hbeacon, hmessage⟩ := UdpWire.carries_beacon sv.bits
  unfold Carries
  rw [Packet.take_onWire, Packet.onWire, Packet.datagram, hbeacon, hmessage]
  refine ⟨fun sv' h' => Option.some.inj h' ▸ h, ?_⟩
  rintro msg ⟨⟩

/-- What a message's datagram carries. -/
theorem UdpPort.carries_message {P : StateVector UInt32 → Prop} {Q : Message UInt32 → Prop}
    {msg : Message F} (h : Q msg.bits) : Carries P Q (Packet.message msg).onWire := by
  obtain ⟨hmessage, hbeacon⟩ := UdpWire.carries_message msg.bits
  unfold Carries
  rw [Packet.take_onWire, Packet.onWire, Packet.datagram, hbeacon, hmessage]
  refine ⟨?_, fun msg' h' => Option.some.inj h' ▸ h⟩
  rintro sv ⟨⟩

end MithAtomas
