import MithAtomas.Core.World

/-!
# One tick of `BeaconSystem`

`World.beaconTick`, field by field: what it makes of the table, the registry and the counter of
rejected beacons (`inbox_afterBeacons`), what it hands to the transports (`sent_beaconTick`) and
when (`outgoing`), and what it leaves alone. The steps are: the table ages, a beacon is sent if one
is due, the beacons polled are received (`afterBeacons`), the messages polled are routed.
-/

namespace MithAtomas

variable {F U : Type} [FloatScalar F]

namespace BeaconSystem

variable (sys : BeaconSystem F) (auth : Option SignatureScheme) (keypair : Option IdentityKeyPair)
  (transport : Option Channel) (sv : StateVector F) (deltaTime : F)

@[simp] theorem rejectedBeacons_emit :
    (sys.emit auth keypair transport sv deltaTime).1.rejectedBeacons = sys.rejectedBeacons := by
  unfold emit
  simp only
  split <;> rfl

@[simp] theorem beaconPeriodS_emit :
    (sys.emit auth keypair transport sv deltaTime).1.beaconPeriodS = sys.beaconPeriodS := by
  unfold emit
  simp only
  split <;> rfl

@[simp] theorem neighbourTimeoutS_emit :
    (sys.emit auth keypair transport sv deltaTime).1.neighbourTimeoutS = sys.neighbourTimeoutS := by
  unfold emit
  simp only
  split <;> rfl

/-- What is sent is the state vector, signed in signed mode. -/
theorem mem_emit {b : StateVector F} (h : b ∈ (sys.emit auth keypair transport sv deltaTime).2) :
    b = sv.signed auth keypair := by
  unfold emit at h
  simp only at h
  split at h
  · exact List.mem_singleton.mp h
  · cases h

/-- A beacon is due. -/
theorem emit_of_due (hperiod : 0 < sys.beaconPeriodS)
    (hdue : sys.beaconPeriodS ≤ sys.timeSinceLastBeaconS + deltaTime)
    (husable : usable transport = true) : sys.emit auth keypair transport sv deltaTime
      = ({ sys with timeSinceLastBeaconS := 0 }, [sv.signed auth keypair]) :=
  if_pos ⟨hperiod, hdue, husable⟩

/-- None is due yet. -/
theorem emit_of_not_due (hdue : ¬ sys.beaconPeriodS ≤ sys.timeSinceLastBeaconS + deltaTime) :
    sys.emit auth keypair transport sv deltaTime
      = ({ sys with timeSinceLastBeaconS := sys.timeSinceLastBeaconS + deltaTime }, []) :=
  if_neg fun h => hdue h.2.1

end BeaconSystem

namespace World

variable (w : World F U) (auth : Option SignatureScheme)

/-- Where the loop over the beacons polled is after some of them. -/
def inboxAfter (polled : List (StateVector F)) : BeaconInbox F :=
  polled.foldl (BeaconInbox.receive auth w.identity w.context.elapsedTimeS)
    ⟨w.ageNeighbours.neighbourTable, w.peerKeys, w.beacon.rejectedBeacons⟩

/-- The beacons that a tick of `BeaconSystem` sends: one or none. -/
def outgoing : List (StateVector F) :=
  (w.beacon.emit auth w.keypair w.beaconTransport w.stateVector w.context.deltaTimeS).2

/-- The first three steps of a tick on some transport. -/
def afterBeacons : World F U :=
  (w.ageNeighbours.emitBeacon auth).receiveBeacons auth

variable {w auth}

theorem mem_outgoing {b : StateVector F} (h : b ∈ w.outgoing auth) :
    b = w.stateVector.signed auth w.keypair :=
  BeaconSystem.mem_emit _ _ _ _ _ _ h

/-- A poll gives no peer a second entry. -/
theorem distinct_inboxAfter (h : w.neighbourTable.Distinct) (polled : List (StateVector F)) :
    (w.inboxAfter auth polled).table.Distinct :=
  List.foldlRecOn (motive := fun inbox : BeaconInbox F => inbox.table.Distinct) polled _
    (h.ageOut _ _) fun _ ih b _ => BeaconInbox.distinct_receive auth ih b

/-- **Where entries come from**: the table as it was, or a beacon polled that is not an echo. -/
theorem mem_inboxAfter_or {polled : List (StateVector F)} {e : Entry F}
    (h : e ∈ (w.inboxAfter auth polled).table.entries) :
    e ∈ w.neighbourTable.entries ∨
      ∃ b ∈ polled, b.id ≠ w.identity ∧ e = Entry.ofBeacon b w.context.elapsedTimeS none := by
  refine List.foldlRecOn (motive := fun inbox : BeaconInbox F => e ∈ inbox.table.entries →
    e ∈ w.neighbourTable.entries ∨
      ∃ b ∈ polled, b.id ≠ w.identity ∧ e = Entry.ofBeacon b w.context.elapsedTimeS none) polled _
    (fun hold => .inl (NeighbourTable.mem_ageOut hold)) (fun inbox ih b hb he => ?_) h
  rcases BeaconInbox.table_receive_or auth b with hstay | ⟨hother, hupsert⟩
  · rw [hstay] at he
    exact ih he
  · rw [hupsert] at he
    rcases NeighbourTable.mem_upsert he with hold | hnew
    · exact ih hold
    · exact .inr ⟨b, hb, hother, hnew⟩

/-- Without any transport the table ages, and that is all. -/
theorem beaconTick_of_none (h : w.beaconTransport.isNone ∧ w.messageTransport.isNone) :
    w.beaconTick auth = w.ageNeighbours :=
  if_pos h

theorem beaconTick_of_some (h : ¬ (w.beaconTransport.isNone ∧ w.messageTransport.isNone)) :
    w.beaconTick auth = (w.afterBeacons auth).receiveMessages auth :=
  if_neg h

/-- A transport that is not there is not usable. -/
theorem usable_of_isNone {transport : Option Channel} (h : transport.isNone) :
    usable transport = false := by
  rw [Option.isNone_iff_eq_none.mp h]
  rfl

/-! ### The beacons -/

/-- **What is received.** -/
theorem inbox_afterBeacons (w : World F U) (auth : Option SignatureScheme) :
    (⟨(w.afterBeacons auth).neighbourTable, (w.afterBeacons auth).peerKeys,
        (w.afterBeacons auth).beacon.rejectedBeacons⟩ : BeaconInbox F)
      = if usable w.beaconTransport then w.inboxAfter auth w.rxBeacons
        else ⟨w.ageNeighbours.neighbourTable, w.peerKeys, w.beacon.rejectedBeacons⟩ := by
  have hinbox : (w.ageNeighbours.emitBeacon auth).beaconInbox auth
      = w.inboxAfter auth w.rxBeacons := by
    unfold beaconInbox inboxAfter
    simp only [emitBeacon, BeaconSystem.rejectedBeacons_emit]
    rfl
  have htransport : (w.ageNeighbours.emitBeacon auth).beaconTransport = w.beaconTransport := rfl
  unfold afterBeacons receiveBeacons
  rw [htransport]
  split
  · rw [← hinbox]
    rfl
  · simp only [emitBeacon, BeaconSystem.rejectedBeacons_emit]
    rfl

theorem sent_afterBeacons :
    (w.afterBeacons auth).sent = w.sent ++ (w.outgoing auth).map .beacon := by
  unfold afterBeacons receiveBeacons
  split <;> rfl

/-- Receiving beacons leaves alone what the router works on, the registry apart. -/
theorem messages_afterBeacons (w : World F U) (auth : Option SignatureScheme) :
    (w.afterBeacons auth).rxMessages = w.rxMessages ∧
      (w.afterBeacons auth).discovery = w.discovery ∧
      (w.afterBeacons auth).commBuffer = w.commBuffer ∧
      (w.afterBeacons auth).messageHandlers = w.messageHandlers ∧
      (w.afterBeacons auth).messageTransport = w.messageTransport ∧
      (w.afterBeacons auth).keypair = w.keypair ∧
      (w.afterBeacons auth).identity = w.identity := by
  unfold afterBeacons receiveBeacons
  split
  · simp only [drainBeacons, emitBeacon, ageNeighbours, and_self]
  · simp only [emitBeacon, ageNeighbours, and_self]

/-! ### The messages -/

/-- The messages that the handlers send in a tick of `BeaconSystem`. -/
def replies (w : World F U) (auth : Option SignatureScheme) : List (Message F) :=
  if usable w.messageTransport then ((w.afterBeacons auth).messageInbox auth).1.sent else []

/-- Routing messages leaves the beacons' side alone, the registry apart. -/
theorem beacons_receiveMessages (w : World F U) :
    (w.receiveMessages auth).neighbourTable = w.neighbourTable ∧
      (w.receiveMessages auth).beacon = w.beacon := by
  unfold receiveMessages
  split <;> exact ⟨rfl, rfl⟩

/-- **The table after a tick.** -/
theorem neighbourTable_beaconTick (auth : Option SignatureScheme) :
    (w.beaconTick auth).neighbourTable =
      if usable w.beaconTransport then (w.inboxAfter auth w.rxBeacons).table
      else w.ageNeighbours.neighbourTable := by
  by_cases hnone : w.beaconTransport.isNone ∧ w.messageTransport.isNone
  · rw [beaconTick_of_none hnone, usable_of_isNone hnone.1]
    rfl
  · rw [beaconTick_of_some hnone, (beacons_receiveMessages _).1]
    have h := congrArg BeaconInbox.table (inbox_afterBeacons w auth)
    rw [apply_ite BeaconInbox.table] at h
    exact h

/-- The rejected beacons after a tick. -/
theorem rejectedBeacons_beaconTick (auth : Option SignatureScheme) :
    (w.beaconTick auth).beacon.rejectedBeacons =
      if usable w.beaconTransport then (w.inboxAfter auth w.rxBeacons).rejectedBeacons
      else w.beacon.rejectedBeacons := by
  by_cases hnone : w.beaconTransport.isNone ∧ w.messageTransport.isNone
  · rw [beaconTick_of_none hnone, usable_of_isNone hnone.1]
    rfl
  · rw [beaconTick_of_some hnone, (beacons_receiveMessages _).2]
    have h := congrArg BeaconInbox.rejectedBeacons (inbox_afterBeacons w auth)
    rw [apply_ite BeaconInbox.rejectedBeacons] at h
    exact h

/-- **The timers after a tick**, when there is a channel for beacons. -/
theorem timers_beaconTick (auth : Option SignatureScheme)
    (husable : usable w.beaconTransport = true) :
    (w.beaconTick auth).beacon.timeSinceLastBeaconS
        = (w.beacon.emit auth w.keypair w.beaconTransport w.stateVector
            w.context.deltaTimeS).1.timeSinceLastBeaconS ∧
      (w.beaconTick auth).beacon.beaconPeriodS = w.beacon.beaconPeriodS ∧
      (w.beaconTick auth).beacon.neighbourTimeoutS = w.beacon.neighbourTimeoutS := by
  have hsome : ¬ (w.beaconTransport.isNone ∧ w.messageTransport.isNone) := by
    rintro ⟨hnone, -⟩
    rw [usable_of_isNone hnone] at husable
    cases husable
  have hafter : (w.afterBeacons auth).beacon
      = { (w.beacon.emit auth w.keypair w.beaconTransport w.stateVector w.context.deltaTimeS).1 with
          rejectedBeacons := (w.afterBeacons auth).beacon.rejectedBeacons } := by
    have htransport : (w.ageNeighbours.emitBeacon auth).beaconTransport = w.beaconTransport := rfl
    unfold afterBeacons receiveBeacons
    rw [htransport, if_pos husable]
    rfl
  rw [beaconTick_of_some hsome, (beacons_receiveMessages _).2, hafter]
  exact ⟨rfl, BeaconSystem.beaconPeriodS_emit .., BeaconSystem.neighbourTimeoutS_emit ..⟩

/-- A poll takes all the beacons that wait. -/
theorem rxBeacons_beaconTick (auth : Option SignatureScheme) :
    (w.beaconTick auth).rxBeacons = if usable w.beaconTransport then [] else w.rxBeacons := by
  by_cases hnone : w.beaconTransport.isNone ∧ w.messageTransport.isNone
  · rw [beaconTick_of_none hnone, usable_of_isNone hnone.1]
    rfl
  · have hpolled : (w.afterBeacons auth).rxBeacons
        = if usable w.beaconTransport then [] else w.rxBeacons := by
      have htransport : (w.ageNeighbours.emitBeacon auth).beaconTransport = w.beaconTransport := rfl
      unfold afterBeacons receiveBeacons
      rw [htransport]
      split <;> rfl
    rw [beaconTick_of_some hnone, ← hpolled]
    unfold receiveMessages
    split <;> rfl

/-- A poll takes all the messages that wait. -/
theorem rxMessages_beaconTick (auth : Option SignatureScheme) :
    (w.beaconTick auth).rxMessages = if usable w.messageTransport then [] else w.rxMessages := by
  by_cases hnone : w.beaconTransport.isNone ∧ w.messageTransport.isNone
  · rw [beaconTick_of_none hnone, usable_of_isNone hnone.2]
    rfl
  · have htransport : (w.afterBeacons auth).messageTransport = w.messageTransport :=
      (messages_afterBeacons _ _).2.2.2.2.1
    rw [beaconTick_of_some hnone]
    unfold receiveMessages
    rw [htransport]
    split
    · rfl
    · exact (messages_afterBeacons _ _).1

/-- **What a tick sends**: its beacon, then the replies. -/
theorem sent_beaconTick :
    (w.beaconTick auth).sent
      = w.sent ++ (w.outgoing auth).map .beacon ++ (w.replies auth).map .message := by
  by_cases hnone : w.beaconTransport.isNone ∧ w.messageTransport.isNone
  · have hout : w.outgoing auth = [] := by
      unfold outgoing BeaconSystem.emit
      simp only [usable_of_isNone hnone.1, Bool.false_eq_true, and_false, if_false]
    have hreplies : w.replies auth = [] := if_neg (by rw [usable_of_isNone hnone.2]; decide)
    rw [beaconTick_of_none hnone, hout, hreplies, List.map_nil, List.append_nil]
    exact (List.append_nil _).symm
  · rw [beaconTick_of_some hnone]
    have htransport : (w.afterBeacons auth).messageTransport = w.messageTransport :=
      (messages_afterBeacons _ _).2.2.2.2.1
    unfold receiveMessages replies
    rw [htransport]
    split
    · show (w.afterBeacons auth).sent ++ _ = _
      rw [sent_afterBeacons]
      rfl
    · rw [sent_afterBeacons, List.map_nil, List.append_nil]

/-- The beacons among what it sends. -/
theorem mem_sent_beaconTick {b : StateVector F} :
    .beacon b ∈ (w.beaconTick auth).sent ↔ .beacon b ∈ w.sent ∨ b ∈ w.outgoing auth := by
  rw [sent_beaconTick, List.mem_append, List.mem_append]
  constructor
  · rintro ((hold | hnew) | hreply)
    · exact .inl hold
    · obtain ⟨b', hb', hsame⟩ := List.mem_map.mp hnew
      exact .inr (Packet.beacon.inj hsame ▸ hb')
    · obtain ⟨m, -, hsame⟩ := List.mem_map.mp hreply
      cases hsame
  · rintro (hold | hnew)
    · exact .inl (.inl hold)
    · exact .inl (.inr (List.mem_map_of_mem hnew))

/-- Without handlers the messages go to the mission, and nobody replies. -/
theorem messageInbox_of_nil (h : w.messageHandlers = []) :
    (w.messageInbox auth).1 = ⟨w.discovery, w.peerKeys, []⟩ := by
  have hhandlers : w.handlers auth = [] := by
    unfold handlers
    rw [h]
    rfl
  unfold messageInbox
  rw [hhandlers]
  exact List.foldlRecOn
    (motive := fun work : DiscoverySystem.Inbox F × CommBufferComponent F =>
      work.1 = ⟨w.discovery, w.peerKeys, []⟩) w.rxMessages _ rfl fun _ ih _ _ => ih

/-- One message, routed to the handlers: the id of discovery stays. -/
theorem selfId_route (w : World F U) (auth : Option SignatureScheme)
    (work : DiscoverySystem.Inbox F × CommBufferComponent F) (m : Message F) :
    (route (w.handlers auth) work m).1.sys.selfId = work.1.sys.selfId := by
  refine route_invariant (I := fun inbox : DiscoverySystem.Inbox F =>
    inbox.sys.selfId = work.1.sys.selfId) ?_ rfl
  intro handler hhandler inbox hinbox
  obtain ⟨name, -, rfl⟩ := List.mem_map.mp hhandler
  cases name with
  | discovery =>
    exact (DiscoverySystem.selfId_handleMessage auth w.keypair w.messageTransport inbox m).trans
      hinbox

theorem selfId_beaconTick (w : World F U) (auth : Option SignatureScheme) :
    (w.beaconTick auth).discovery.selfId = w.discovery.selfId := by
  by_cases hnone : w.beaconTransport.isNone ∧ w.messageTransport.isNone
  · rw [beaconTick_of_none hnone]
    rfl
  · rw [beaconTick_of_some hnone]
    have hdiscovery : (w.afterBeacons auth).discovery = w.discovery :=
      (messages_afterBeacons _ _).2.1
    unfold receiveMessages
    split
    · show ((w.afterBeacons auth).messageInbox auth).1.sys.selfId = _
      rw [← hdiscovery]
      exact List.foldlRecOn
        (motive := fun work : DiscoverySystem.Inbox F × CommBufferComponent F =>
          work.1.sys.selfId = (w.afterBeacons auth).discovery.selfId)
        (w.afterBeacons auth).rxMessages _ rfl fun work ih m _ =>
          (selfId_route _ auth work m).trans ih
    · rw [hdiscovery]

/-- The welcomes for the hellos among some messages. -/
def welcomes (w : World F U) (auth : Option SignatureScheme) (polled : List (Message F)) :
    List (Message F) :=
  (polled.filter fun m => m.type = messages.DISCOVERY_HELLO).map fun m =>
    DiscoverySystem.announce auth w.keypair w.discovery.selfId m.sender messages.DISCOVERY_WELCOME

/-- One message, routed to `DiscoverySystem`. -/
theorem sent_route (w : World F U) (auth : Option SignatureScheme)
    (hhandlers : w.messageHandlers = [.discovery]) (husable : usable w.messageTransport = true)
    (work : DiscoverySystem.Inbox F × CommBufferComponent F)
    (hself : work.1.sys.selfId = w.discovery.selfId) (m : Message F) :
    (route (w.handlers auth) work m).1.sent = work.1.sent ++ w.welcomes auth [m] := by
  have hroute : (route (w.handlers auth) work m).1.sent
      = (DiscoverySystem.handleMessage auth w.keypair w.messageTransport work.1 m).1.sent := by
    unfold route handlers
    rw [hhandlers, List.map_singleton]
    unfold offer
    cases hclaimed :
      (DiscoverySystem.handleMessage auth w.keypair w.messageTransport work.1 m).2 with
    | true => simp [hclaimed]
    | false => simp [hclaimed, offer]
  rw [hroute, DiscoverySystem.sent_handleMessage, hself]
  unfold welcomes
  by_cases hhello : m.type = messages.DISCOVERY_HELLO
  · rw [if_pos ⟨hhello, husable⟩, List.filter_cons_of_pos (by simpa using hhello)]
    rfl
  · rw [if_neg fun h => hhello h.1, List.filter_cons_of_neg (by simpa using hhello)]
    rfl

/-- **Who replies**: `DiscoverySystem`, if it is there, to every hello. -/
theorem replies_eq (hhandlers : w.messageHandlers = [.discovery]) :
    w.replies auth = if usable w.messageTransport then w.welcomes auth w.rxMessages else [] := by
  obtain ⟨hrx, hdiscovery, -, hhandlers', htransport, hkeypair, -⟩ :=
    messages_afterBeacons w auth
  unfold replies
  split
  · next husable =>
    have hwelcomes : ∀ polled, (w.afterBeacons auth).welcomes auth polled =
      w.welcomes auth polled := by
      intro polled
      unfold welcomes
      rw [hkeypair, hdiscovery]
    have hall : ∀ polled : List (Message F),
        (polled.foldl (route ((w.afterBeacons auth).handlers auth))
            (⟨(w.afterBeacons auth).discovery, (w.afterBeacons auth).peerKeys, []⟩,
              (w.afterBeacons auth).commBuffer)).1.sys.selfId = w.discovery.selfId ∧
          (polled.foldl (route ((w.afterBeacons auth).handlers auth))
            (⟨(w.afterBeacons auth).discovery, (w.afterBeacons auth).peerKeys, []⟩,
              (w.afterBeacons auth).commBuffer)).1.sent = w.welcomes auth polled := by
      intro polled
      -- from the last message: a handler keeps `selfId`, so each hello is answered alike
      induction polled using List.reverseRecOn with
      | nil => exact ⟨congrArg DiscoverySystem.selfId hdiscovery, rfl⟩
      | append_singleton polled m ih =>
        rw [List.foldl_concat, selfId_route]
        refine ⟨ih.1, ?_⟩
        rw [sent_route _ _ (hhandlers'.trans hhandlers) (htransport ▸ husable) _
          (hdiscovery ▸ ih.1),
          ih.2, hwelcomes]
        unfold welcomes
        rw [List.filter_append, List.map_append]
    unfold messageInbox
    rw [hrx]
    exact (hall w.rxMessages).2
  · rfl

/-- Without handlers the registry is the beacons' alone. -/
theorem peerKeys_beaconTick (h : w.messageHandlers = []) :
    (w.beaconTick auth).peerKeys =
      if usable w.beaconTransport then (w.inboxAfter auth w.rxBeacons).keys
      else w.peerKeys := by
  by_cases hnone : w.beaconTransport.isNone ∧ w.messageTransport.isNone
  · rw [beaconTick_of_none hnone, usable_of_isNone hnone.1]
    rfl
  · have hrouted : ((w.afterBeacons auth).receiveMessages auth).peerKeys
        = (w.afterBeacons auth).peerKeys := by
      unfold receiveMessages
      split
      · show ((w.afterBeacons auth).messageInbox auth).1.keys = _
        rw [messageInbox_of_nil ((messages_afterBeacons _ _).2.2.2.1.trans h)]
      · rfl
    rw [beaconTick_of_some hnone, hrouted]
    have hkeys := congrArg BeaconInbox.keys (inbox_afterBeacons w auth)
    rw [apply_ite BeaconInbox.keys] at hkeys
    exact hkeys

/-- **What the registry keeps in a tick**: what every beacon polled and every key advertised in a
message polled keeps. -/
theorem peerKeys_beaconTick_invariant {I : PeerKeyRegistry → Prop}
    (hbeacons : ∀ b ∈ w.rxBeacons, ∀ inbox : BeaconInbox F, I inbox.keys →
      I (inbox.receive auth w.identity w.context.elapsedTimeS b).keys)
    (hmessages : ∀ m ∈ w.rxMessages, DiscoverySystem.IsDiscovery m → ∀ keys, I keys →
      I (DiscoverySystem.pinAdvertised auth keys m))
    (h : I w.peerKeys) : I (w.beaconTick auth).peerKeys := by
  by_cases hnone : w.beaconTransport.isNone ∧ w.messageTransport.isNone
  · rw [beaconTick_of_none hnone]
    exact h
  · -- first the beacons
    have hafter : I (w.afterBeacons auth).peerKeys := by
      have hkeys := congrArg BeaconInbox.keys (inbox_afterBeacons w auth)
      rw [apply_ite BeaconInbox.keys] at hkeys
      rw [show (w.afterBeacons auth).peerKeys = _ from hkeys]
      split
      · exact List.foldlRecOn (motive := fun inbox : BeaconInbox F => I inbox.keys) w.rxBeacons _ h
          fun inbox ih b hb => hbeacons b hb inbox ih
      · exact h
    -- then the messages
    rw [beaconTick_of_some hnone]
    unfold receiveMessages
    split
    · refine List.foldlRecOn
        (motive := fun work : DiscoverySystem.Inbox F × CommBufferComponent F => I work.1.keys)
        (w.afterBeacons auth).rxMessages _ hafter fun work ih m hm => ?_
      rw [(messages_afterBeacons _ _).1] at hm
      refine route_invariant (I := fun inbox : DiscoverySystem.Inbox F => I inbox.keys) ?_ ih
      intro handler hhandler inbox hinbox
      -- the only handlers are `DiscoverySystem`'s
      obtain ⟨name, -, rfl⟩ := List.mem_map.mp hhandler
      cases name with
      | discovery =>
        rcases DiscoverySystem.keys_handleMessage auth (w.afterBeacons auth).keypair
          (w.afterBeacons auth).messageTransport inbox m with ⟨htype, hpin⟩ | hstay
        · exact hpin ▸ hmessages m hm htype _ hinbox
        · exact hstay ▸ hinbox
    · exact hafter

end World

end MithAtomas
