import MithAtomas.Comms.UdpMulticastTransport
import MithAtomas.Framework.Runs

/-!
# A group of UDP transports

Any number of `UDPMulticastTransport`s in one group, on a network that may lose a datagram, deliver
it late, out of order and more than once, and to its sender as well. Every `sendto` and every `recv`
may fail for good, which `src/comms/udp_multicast_transport.cpp` remembers in `healthy`.

The functions are those of `UdpMulticastTransport`, with what they do when a call fails
(`sendPacket_eq`, `drainSocket_recv`). `Tracks` is what holds of a member in every run: it hands
over, in the order of receipt, exactly what others have sent in calls that returned `true`; and it
is healthy until a call of its own fails (`healthy_iff`).
-/

namespace MithAtomas

open UdpWire UdpMulticastTransport Runs

/-- A transport with its health and its socket. The last fields are the history of the run. -/
structure UdpMember where
  impl : UdpMulticastTransport
  healthy : Bool := true
  socket : List (List UInt8) := []
  /-- the packets whose `send_beacon` or `send_message` has returned `true` -/
  sent : List (Packet UInt32) := []
  /-- the packets whose datagrams have reached the socket -/
  delivered : List (Packet UInt32) := []
  /-- what `recv` has returned -/
  received : List (List UInt8) := []
  /-- what `poll_beacons` has returned -/
  beacons : List (StateVector UInt32) := []
  /-- what `poll_messages` has returned -/
  messages : List (Message UInt32) := []

namespace UdpMember

variable (m : UdpMember)

/-- `send_beacon` or `send_message`, where `sendto` takes the datagram or fails. -/
def send (p : Packet UInt32) (sendto : Bool) : UdpMember :=
  let buf := p.datagram
  if buf.length = 0 then m
  else if sendto then
    { m with
      impl := { m.impl with bytesSent := m.impl.bytesSent + UInt64.ofNat buf.length }
      sent := m.sent ++ [p] }
  else { m with healthy := false }

/-- A turn of the loop in `drain_socket`; an empty socket is `EAGAIN`. -/
def recv : UdpMember :=
  match m.socket with
  | [] => m
  | datagram :: socket =>
    let buf := datagram.take MAX_FRAME_BYTES
    let m := { m with socket, received := m.received ++ [buf] }
    if buf.length = 0 then m else { m with impl := m.impl.onDatagram buf }

/-- A `recv` that fails otherwise. -/
def recvFailed : UdpMember :=
  { m with healthy := false }

/-- The end of `poll_beacons`. -/
def handOverBeacons : UdpMember :=
  { m with
    impl := { m.impl with inboxBeacons := [] }
    beacons := m.beacons ++ m.impl.inboxBeacons }

/-- The end of `poll_messages`. -/
def handOverMessages : UdpMember :=
  { m with
    impl := { m.impl with inboxMessages := [] }
    messages := m.messages ++ m.impl.inboxMessages }

/-- A datagram reaches the socket. -/
def deliver (p : Packet UInt32) : UdpMember :=
  { m with
    socket := m.socket ++ [p.datagram]
    delivered := m.delivered ++ [p] }

end UdpMember

/-- What happens at a member. -/
inductive MemberEvent (ι : Type) where
  | send (p : Packet UInt32) (sendto : Bool)
  /-- a datagram that the member `j` has sent arrives -/
  | deliver (j : ι) (p : Packet UInt32)
  | recv
  | recvFailed
  | handOverBeacons
  | handOverMessages

/-- A call of the member's own that fails for good. -/
def MemberEvent.Fails {ι : Type} : MemberEvent ι → Prop
  | .send _ sendto => sendto = false
  | .recvFailed => True
  | _ => False

/-- The member after the event. -/
def MemberEvent.apply {ι : Type} (m : UdpMember) : MemberEvent ι → UdpMember
  | .send p sendto => m.send p sendto
  | .deliver _ p => m.deliver p
  | .recv => m.recv
  | .recvFailed => m.recvFailed
  | .handOverBeacons => m.handOverBeacons
  | .handOverMessages => m.handOverMessages

variable {ι : Type} [DecidableEq ι]

/-- **One step of the group.** The network delivers only what was sent, whenever and as often as it
likes. -/
inductive GroupStep : (ι → UdpMember) → ι × MemberEvent ι → (ι → UdpMember) → Prop
  | mk {s : ι → UdpMember} (i : ι) (e : MemberEvent ι)
      (hsent : ∀ j p, e = .deliver j p → p ∈ (s j).sent) :
      GroupStep s (i, e) (Function.update s i (e.apply (s i)))

/-- The group when every member has been opened, under any ids. -/
def openedGroup (selfId : ι → HierarchicalID) : ι → UdpMember := fun i =>
  { impl := { selfId := selfId i } }

/-! ### One member -/

theorem Packet.length_datagram_pos (p : Packet UInt32) : 0 < p.datagram.length := by
  cases p with
  | beacon sv =>
    show 0 < (encodeBeacon sv MAX_FRAME_BYTES).length
    rw [length_encodeBeacon sv (by decide)]
    norm_num
  | message msg =>
    show 0 < (encodeMessage msg MAX_FRAME_BYTES).length
    rw [length_encodeMessage msg (by decide)]
    norm_num

/-- The buffer of `recv` holds every datagram that a transport sends. -/
theorem Packet.take_datagram (p : Packet UInt32) :
    p.datagram.take MAX_FRAME_BYTES = p.datagram := by
  refine List.take_of_length_le ?_
  cases p with
  | beacon sv =>
    show (encodeBeacon sv MAX_FRAME_BYTES).length ≤ _
    rw [length_encodeBeacon sv (by decide)]
    decide
  | message msg =>
    show (encodeMessage msg MAX_FRAME_BYTES).length ≤ _
    rw [length_encodeMessage msg (by decide)]
    decide

namespace UdpMember

/-- A call whose `sendto` takes the datagram is that of the transport. -/
theorem sendPacket_eq (m : UdpMember) (p : Packet UInt32) :
    (match p with
      | .beacon sv => m.impl.sendBeacon sv
      | .message msg => m.impl.sendMessage msg) = some ((m.send p true).impl, p.datagram) := by
  have hpos := p.length_datagram_pos
  unfold UdpMember.send
  dsimp only
  rw [if_neg hpos.ne', if_pos rfl]
  cases p with
  | beacon sv =>
    have hlen : ¬ (encodeBeacon sv MAX_FRAME_BYTES).length = 0 := hpos.ne'
    simp only [sendBeacon, if_neg hlen]
    rfl
  | message msg =>
    have hlen : ¬ (encodeMessage msg MAX_FRAME_BYTES).length = 0 := hpos.ne'
    simp only [sendMessage, if_neg hlen]
    rfl

/-- A turn is one round of the drain of the transport. -/
theorem drainSocket_recv (m : UdpMember) (h : m.socket.head? ≠ some []) :
    m.impl.drainSocket m.socket = m.recv.impl.drainSocket m.recv.socket := by
  unfold UdpMember.recv
  cases hsocket : m.socket with
  | nil => rw [hsocket]
  | cons datagram socket =>
    rw [hsocket, List.head?_cons, ne_eq, Option.some_inj] at h
    have hlen : ¬ (datagram.take MAX_FRAME_BYTES).length = 0 := by
      rw [List.length_eq_zero_iff, List.take_eq_nil_iff]
      rintro (hzero | hnil)
      · exact absurd hzero (by decide)
      · exact h hnil
    dsimp only
    rw [if_neg hlen, drainSocket]
    exact if_neg hlen

end UdpMember

/-- **What is known of a member.** -/
structure UdpMember.Tracks (selfId : HierarchicalID) (m : UdpMember) : Prop where
  selfId_eq : m.impl.selfId = selfId
  order : m.received ++ m.socket = m.delivered.map Packet.datagram
  beacons : m.beacons ++ m.impl.inboxBeacons = m.received.filterMap (foreignBeacon selfId)
  messages : m.messages ++ m.impl.inboxMessages = m.received.filterMap (foreignMessage selfId)
  parseErrors : m.impl.parseErrors = UInt64.ofNat (m.received.countP malformed)
  bytesSent : m.impl.bytesSent = UInt64.ofNat (m.sent.map fun p => p.datagram.length).sum
  bytesReceived : m.impl.bytesReceived = UInt64.ofNat (m.received.map List.length).sum

namespace UdpMember

variable {selfId : HierarchicalID} {m : UdpMember}

theorem tracks_opened : Tracks selfId { impl := { selfId } } :=
  ⟨rfl, rfl, rfl, rfl, rfl, rfl, rfl⟩

theorem Tracks.send (h : Tracks selfId m) (p : Packet UInt32) (sendto : Bool) :
    Tracks selfId (m.send p sendto) := by
  unfold UdpMember.send
  dsimp only
  rw [if_neg p.length_datagram_pos.ne']
  cases sendto with
  | false => exact ⟨h.selfId_eq, h.order, h.beacons, h.messages, h.parseErrors, h.bytesSent,
      h.bytesReceived⟩
  | true =>
    refine ⟨h.selfId_eq, h.order, h.beacons, h.messages, h.parseErrors, ?_, h.bytesReceived⟩
    show m.impl.bytesSent + _ = UInt64.ofNat (List.map _ (m.sent ++ [p])).sum
    rw [h.bytesSent, ← UInt64.ofNat_add, List.map_append, List.sum_append, List.map_singleton,
      List.sum_singleton]

theorem Tracks.deliver (h : Tracks selfId m) (p : Packet UInt32) : Tracks selfId (m.deliver p) := by
  refine ⟨h.selfId_eq, ?_, h.beacons, h.messages, h.parseErrors, h.bytesSent, h.bytesReceived⟩
  show m.received ++ (m.socket ++ [p.datagram]) = (m.delivered ++ [p]).map Packet.datagram
  rw [← List.append_assoc, h.order, List.map_append, List.map_singleton]

/-- What is received is a datagram as it was sent, and goes where it belongs. -/
theorem Tracks.recv (h : Tracks selfId m) : Tracks selfId m.recv := by
  unfold UdpMember.recv
  cases hsocket : m.socket with
  | nil => exact h
  | cons datagram socket =>
    have horder := h.order
    rw [hsocket] at horder
    -- the datagram is a packet's, so that it is not empty, and it fits the buffer
    have hmem : datagram ∈ m.delivered.map Packet.datagram := by
      rw [← horder]
      exact List.mem_append_right _ List.mem_cons_self
    obtain ⟨p, -, rfl⟩ := List.mem_map.mp hmem
    dsimp only
    rw [p.take_datagram, if_neg p.length_datagram_pos.ne', onDatagram_eq, h.selfId_eq]
    exact {
      selfId_eq := rfl
      order := by
        show (m.received ++ [p.datagram]) ++ socket = _
        rw [List.append_assoc, List.singleton_append, horder]
      beacons := by
        show m.beacons ++ (m.impl.inboxBeacons ++ _) = _
        rw [← List.append_assoc, h.beacons, List.filterMap_append]
        cases hf : foreignBeacon selfId p.datagram <;> simp [hf]
      messages := by
        show m.messages ++ (m.impl.inboxMessages ++ _) = _
        rw [← List.append_assoc, h.messages, List.filterMap_append]
        cases hf : foreignMessage selfId p.datagram <;> simp [hf]
      parseErrors := by
        show (if malformed p.datagram then m.impl.parseErrors + 1 else m.impl.parseErrors) = _
        rw [List.countP_append, UInt64.ofNat_add, h.parseErrors, List.countP_singleton]
        split
        · rfl
        · exact (UInt64.add_zero _).symm
      bytesSent := h.bytesSent
      bytesReceived := by
        show m.impl.bytesReceived + _ = _
        rw [h.bytesReceived, ← UInt64.ofNat_add, List.map_append, List.sum_append,
          List.map_singleton, List.sum_singleton] }

theorem Tracks.handOverBeacons (h : Tracks selfId m) : Tracks selfId m.handOverBeacons := by
  refine ⟨h.selfId_eq, h.order, ?_, h.messages, h.parseErrors, h.bytesSent, h.bytesReceived⟩
  show (m.beacons ++ m.impl.inboxBeacons) ++ [] = _
  rw [List.append_nil, h.beacons]
  rfl

theorem Tracks.handOverMessages (h : Tracks selfId m) : Tracks selfId m.handOverMessages := by
  refine ⟨h.selfId_eq, h.order, h.beacons, ?_, h.parseErrors, h.bytesSent, h.bytesReceived⟩
  show (m.messages ++ m.impl.inboxMessages) ++ [] = _
  rw [List.append_nil, h.messages]
  rfl

omit [DecidableEq ι] in
/-- **Every event** keeps it. -/
theorem Tracks.apply (h : Tracks selfId m) (e : MemberEvent ι) : Tracks selfId (e.apply m) := by
  cases e with
  | send p sendto => exact h.send p sendto
  | deliver j p => exact h.deliver p
  | recv => exact h.recv
  | recvFailed =>
    exact ⟨h.selfId_eq, h.order, h.beacons, h.messages, h.parseErrors, h.bytesSent, h.bytesReceived⟩
  | handOverBeacons => exact h.handOverBeacons
  | handOverMessages => exact h.handOverMessages

theorem mem_sent_send (m : UdpMember) (p : Packet UInt32) : p ∈ (m.send p true).sent := by
  unfold UdpMember.send
  dsimp only
  rw [if_neg p.length_datagram_pos.ne', if_pos rfl]
  exact List.mem_append_right _ (List.mem_singleton_self p)

omit [DecidableEq ι] in
/-- What was sent stays sent. -/
theorem sent_subset_apply (m : UdpMember) (e : MemberEvent ι) : m.sent ⊆ (e.apply m).sent := by
  cases e with
  | send p sendto =>
    show m.sent ⊆ (m.send p sendto).sent
    unfold UdpMember.send
    dsimp only
    rw [if_neg p.length_datagram_pos.ne']
    cases sendto with
    | false => exact List.Subset.refl _
    | true => exact List.subset_append_left _ _
  | recv =>
    show m.sent ⊆ m.recv.sent
    unfold UdpMember.recv
    split
    · exact List.Subset.refl _
    · dsimp only
      split <;> exact List.Subset.refl _
  | deliver | recvFailed | handOverBeacons | handOverMessages => exact List.Subset.refl _

omit [DecidableEq ι] in
/-- What is delivered by an event. -/
theorem mem_delivered_apply {m : UdpMember} {e : MemberEvent ι} {p : Packet UInt32}
    (h : p ∈ (e.apply m).delivered) : p ∈ m.delivered ∨ ∃ j, e = .deliver j p := by
  cases e with
  | deliver j q =>
    rcases List.mem_append.mp h with hold | hnew
    · exact .inl hold
    · rw [List.mem_singleton.mp hnew]
      exact .inr ⟨j, rfl⟩
  | send q sendto =>
    refine .inl ?_
    change p ∈ (m.send q sendto).delivered at h
    unfold UdpMember.send at h
    dsimp only at h
    rw [if_neg q.length_datagram_pos.ne'] at h
    cases sendto <;> exact h
  | recv =>
    refine .inl ?_
    change p ∈ m.recv.delivered at h
    unfold UdpMember.recv at h
    split at h
    · exact h
    · dsimp only at h
      split at h <;> exact h
  | recvFailed | handOverBeacons | handOverMessages => exact .inl h

omit [DecidableEq ι] in
/-- Only a call that fails is remembered. -/
theorem healthy_apply (m : UdpMember) (e : MemberEvent ι) :
    (e.apply m).healthy = true ↔ m.healthy = true ∧ ¬ e.Fails := by
  cases e with
  | send p sendto =>
    show (m.send p sendto).healthy = true ↔ _ ∧ ¬ sendto = false
    unfold UdpMember.send
    dsimp only
    rw [if_neg p.length_datagram_pos.ne']
    cases sendto <;> simp
  | recv =>
    show m.recv.healthy = true ↔ _ ∧ ¬ False
    rw [and_iff_left not_false]
    unfold UdpMember.recv
    split
    · exact Iff.rfl
    · dsimp only
      split <;> exact Iff.rfl
  | recvFailed => exact ⟨nofun, fun h => absurd trivial h.2⟩
  | deliver | handOverBeacons | handOverMessages =>
    exact (and_iff_left (show ¬ False from not_false)).symm

end UdpMember

/-! ### The group -/

section Group

variable {selfId : ι → HierarchicalID} {es : List (ι × MemberEvent ι)} {s : ι → UdpMember}

theorem tracks_of_run (h : Run GroupStep (openedGroup selfId) es s) (i : ι) :
    (s i).Tracks (selfId i) := by
  have hall : ∀ i, (s i).Tracks (selfId i) := by
    refine h.invariant (I := fun s => ∀ i, (s i).Tracks (selfId i)) ?_ fun i =>
      UdpMember.tracks_opened
    rintro s l s' htracks ⟨j, e, -⟩ i
    by_cases hi : i = j
    · subst hi
      rw [Function.update_self]
      exact (htracks i).apply e
    · rw [Function.update_of_ne hi]
      exact htracks i
  exact hall i

/-- **Nothing is made up** on the way. -/
theorem sent_of_delivered (h : Run GroupStep (openedGroup selfId) es s) {i : ι}
    {p : Packet UInt32} (hp : p ∈ (s i).delivered) : ∃ j, p ∈ (s j).sent := by
  refine h.invariant (I := fun s => ∀ i, ∀ p ∈ (s i).delivered, ∃ j, p ∈ (s j).sent) ?_ nofun i p hp
  rintro s l s' hold ⟨k, e, hsent⟩ i p hp
  have hkeep : ∀ j, (s j).sent ⊆ (Function.update s k (e.apply (s k)) j).sent := by
    intro j
    by_cases hj : j = k
    · rw [hj, Function.update_self]
      exact UdpMember.sent_subset_apply _ _
    · rw [Function.update_of_ne hj]
      exact List.Subset.refl _
  have hsource : ∃ j, p ∈ (s j).sent := by
    by_cases hi : i = k
    · rw [hi, Function.update_self] at hp
      rcases UdpMember.mem_delivered_apply hp with hbefore | ⟨j, hnow⟩
      · exact hold k p hbefore
      · exact ⟨j, hsent j p hnow⟩
    · rw [Function.update_of_ne hi] at hp
      exact hold i p hp
  obtain ⟨j, hj⟩ := hsource
  exact ⟨j, hkeep j hj⟩

theorem healthy_iff (h : Run GroupStep (openedGroup selfId) es s) (i : ι) :
    (s i).healthy = true ↔ ∀ e, (i, e) ∈ es → ¬ e.Fails := by
  induction h with
  | nil => exact ⟨fun _ => nofun, fun _ => rfl⟩
  | @snoc es m l s' hrun hstep ih =>
    obtain ⟨k, e, -⟩ := hstep
    by_cases hi : i = k
    · subst hi
      rw [Function.update_self, UdpMember.healthy_apply, ih]
      constructor
      · rintro ⟨hbefore, hnow⟩ e' he'
        rcases List.mem_append.mp he' with hold | hnew
        · exact hbefore e' hold
        · cases List.mem_singleton.mp hnew
          exact hnow
      · intro hall
        exact ⟨fun e' he' => hall e' (List.mem_append_left _ he'),
          hall e (List.mem_append_right _ (List.mem_singleton_self _))⟩
    · rw [Function.update_of_ne hi, ih]
      refine forall_congr' fun e' => ?_
      have hother : (i, e') ∈ es ++ [(k, e)] ↔ (i, e') ∈ es := by
        rw [List.mem_append, or_iff_left]
        exact fun hnew => hi (congrArg Prod.fst (List.mem_singleton.mp hnew))
      rw [hother]

/-- **The group is faithful.** In every run, with any loss, delay, repetition and reordering and
with any failing calls, a member has handed over or still holds, in the order of receipt, exactly
the beacons and messages of others among the packets it has received, each as a call that returned
`true` has sent it; nothing counts as a parse error, `bytes_sent` counts the calls that returned
`true`, and the member is healthy until a call of its own fails. -/
theorem group_faithful (h : Run GroupStep (openedGroup selfId) es s) (i : ι) :
    ∃ got : List (Packet UInt32), (s i).received = got.map Packet.datagram ∧
      got <+: (s i).delivered ∧ (∀ p ∈ got, ∃ j, p ∈ (s j).sent) ∧
      (s i).beacons ++ (s i).impl.inboxBeacons =
        (got.filterMap Packet.beacon?).filter (fun sv => sv.id ≠ selfId i) ∧
      (s i).messages ++ (s i).impl.inboxMessages =
        (got.filterMap Packet.message?).filter (fun msg => msg.sender ≠ selfId i) ∧
      (s i).impl.parseErrors = 0 ∧
      (s i).impl.bytesSent = UInt64.ofNat ((s i).sent.map fun p => p.datagram.length).sum ∧
      ((s i).healthy = true ↔ ∀ e, (i, e) ∈ es → ¬ e.Fails) := by
  have htracks := tracks_of_run h i
  -- the received datagrams are the first ones that were delivered
  have hreceived : (s i).received =
      ((s i).delivered.take (s i).received.length).map Packet.datagram := by
    rw [List.map_take, ← htracks.order, List.take_left']
    rfl
  refine ⟨(s i).delivered.take (s i).received.length, hreceived, List.take_prefix _ _, ?_, ?_, ?_,
    ?_, htracks.bytesSent, healthy_iff h i⟩
  · exact fun p hp => sent_of_delivered h (List.mem_of_mem_take hp)
  · rw [htracks.beacons, ← filterMap_beaconOf, List.filter_filterMap, ← hreceived]
    rfl
  · rw [htracks.messages, ← filterMap_messageOf, List.filter_filterMap, ← hreceived]
    rfl
  · have herrors := htracks.parseErrors
    rw [hreceived, countP_malformed] at herrors
    exact herrors

/-- Sending leaves what has come in. -/
theorem send_frame (m : UdpMember) (p : Packet UInt32) (sendto : Bool) :
    (m.send p sendto).socket = m.socket ∧ (m.send p sendto).delivered = m.delivered ∧
      (m.send p sendto).received = m.received := by
  unfold UdpMember.send
  dsimp only
  split
  · exact ⟨rfl, rfl, rfl⟩
  · cases sendto <;> exact ⟨rfl, rfl, rfl⟩

/-- A packet that is received at once. -/
theorem recv_deliver {m : UdpMember} (h : m.socket = []) (p : Packet UInt32) :
    (m.deliver p).recv.delivered = m.delivered ++ [p] ∧
      (m.deliver p).recv.received.length = m.received.length + 1 := by
  unfold UdpMember.recv UdpMember.deliver
  rw [h]
  dsimp only [List.nil_append]
  split <;> exact ⟨rfl, List.length_append⟩

/-- The ids of two members. -/
def twoIds (i : Bool) : HierarchicalID :=
  ⟨1, ⟨Vector.replicate 16 (if i then 2 else 1)⟩⟩

/-- A packet of the first member reaches both. The second hands it over, and a `recv` of the first
fails then. -/
def twoEvents (p : Packet UInt32) : List (Bool × MemberEvent Bool) :=
  [(false, .send p true), (true, .deliver false p), (false, .deliver false p), (true, .recv),
    (true, .handOverBeacons), (false, .recv), (false, .recvFailed)]

theorem run_twoEvents (p : Packet UInt32) : ∃ s : Bool → UdpMember,
    Run GroupStep (openedGroup twoIds) (twoEvents p) s ∧
      (s true).delivered = [p] ∧ (s true).received.length = 1 ∧ (s true).impl.inboxBeacons = [] ∧
      (s false).delivered = [p] ∧ (s false).received.length = 1 := by
  have hsent : p ∈ ((openedGroup twoIds false).send p true).sent := UdpMember.mem_sent_send _ _
  have h₀ : Run GroupStep (openedGroup twoIds) [] (openedGroup twoIds) := .nil
  have h₁ := h₀.snoc (.mk false (.send p true) nofun)
  have h₂ := h₁.snoc (.mk true (.deliver false p) (by
    intro j q hq
    obtain ⟨rfl, rfl⟩ := MemberEvent.deliver.inj hq
    exact hsent))
  have h₃ := h₂.snoc (.mk false (.deliver false p) (by
    intro j q hq
    obtain ⟨rfl, rfl⟩ := MemberEvent.deliver.inj hq
    exact hsent))
  have h₄ := h₃.snoc (.mk true .recv nofun)
  have h₅ := h₄.snoc (.mk true .handOverBeacons nofun)
  have h₆ := h₅.snoc (.mk false .recv nofun)
  have h₇ := h₆.snoc (.mk false .recvFailed nofun)
  obtain ⟨hsocket, hdelivered, hreceived⟩ := send_frame (openedGroup twoIds false) p true
  obtain ⟨hd, hr⟩ := recv_deliver (m := openedGroup twoIds true) rfl p
  obtain ⟨hd', hr'⟩ := recv_deliver hsocket p
  rw [hdelivered] at hd'
  rw [hreceived] at hr'
  exact ⟨_, h₇, hd, hr, rfl, hd', hr'⟩

def firstBeacon : StateVector UInt32 :=
  { StateVector.empty with id := twoIds false }

/-- Two members: the beacon of the first reaches both, and only the second hands it over. -/
theorem group_faithful_two : ∃ s : Bool → UdpMember,
    Run GroupStep (openedGroup twoIds) (twoEvents (.beacon firstBeacon)) s ∧
      (s true).beacons = [firstBeacon] ∧ (s true).impl.parseErrors = 0 ∧ (s true).healthy = true ∧
      (s false).beacons ++ (s false).impl.inboxBeacons = [] ∧ (s false).healthy = false := by
  obtain ⟨s, hrun, hdelivered, hlength, hinbox, hdelivered', hlength'⟩ :=
    run_twoEvents (.beacon firstBeacon)
  obtain ⟨got, hgot, hhanded, -, hbeacons, -, herrors, -, hhealthy⟩ := group_faithful hrun true
  obtain ⟨got', hgot', hhanded', -, hbeacons', -, -, -, hhealthy'⟩ := group_faithful hrun false
  -- what was received is the packet
  rw [hgot, List.length_map] at hlength
  rw [hgot', List.length_map] at hlength'
  rw [hdelivered] at hhanded
  rw [hdelivered'] at hhanded'
  rw [hhanded.eq_of_length hlength, hinbox, List.append_nil] at hbeacons
  rw [hhanded'.eq_of_length hlength'] at hbeacons'
  refine ⟨s, hrun, hbeacons, herrors, hhealthy.mpr ?_, hbeacons', ?_⟩
  · intro e he
    simp only [twoEvents, List.mem_cons, Prod.mk.injEq, List.not_mem_nil, reduceCtorEq, false_and,
      true_and, false_or, or_false] at he
    rcases he with rfl | rfl | rfl <;> exact id
  · rw [Bool.eq_false_iff, ne_eq, hhealthy']
    exact fun hall => hall .recvFailed (by simp [twoEvents]) trivial

end Group

end MithAtomas
