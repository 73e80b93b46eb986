import MithAtomas.Core.IdentityRotation
import MithAtomas.Core.UdpWorld
import MithAtomas.Framework.Runs
import MithAtomas.Sim.SimNetwork

/-!
# Directed messages

A directed message names its recipient. On the simulation bus the bus decides who gets it, so in any
run of a network a world is offered none that names somebody else (`DirectedInv`). On the UDP
transport nobody decides: a datagram goes to the whole group, a receiver skips what was sent under
its own id, and `BeaconSystem` routes the rest without a look at the recipient. There it depends on
the traffic: a world is offered only its own while every directed message that is sent names each
member of the group, as the recipient or as the sender (`UdpGroup.NoThirdParty`). As soon as one is
sent to which some member is a third party, that member is offered it.
-/

namespace MithAtomas

open Runs UdpPort UdpMulticastTransport

variable {F U : Type}

/-- The message is directed, to a world with another id. -/
def Message.ForAnother (m : Message F) (hid : HierarchicalID) : Prop :=
  isBroadcast m.recipient = false ∧ m.recipient ≠ hid

/-- The message is for the world with this id, or for all, or that world has sent it, as it says. -/
def Message.Concerns (m : Message F) (hid : HierarchicalID) : Prop :=
  m.ForAnother hid → m.sender = hid

/-- Of what `BeaconSystem` polls, and so offers to the handlers and to the mission, nothing is
directed to another world. -/
def World.OffersOnlyItsOwn (w : World F U) : Prop :=
  ∀ m ∈ w.rxMessages, ¬ m.ForAnother w.identity

variable [FloatScalar F]

/-! ### On the simulation bus -/

variable (F U) in
inductive SimEvent where
  | createWorld (w : World F U)
  | rebuildGrid
  | beaconTick (i : ℕ)
  | systemTick (i : ℕ) (s : ShippedSystem)
  /-- the mission of world `i` sends -/
  | send (i : ℕ) (p : Packet F)
  /-- the clock of world `i`, or its mission -/
  | other (i : ℕ)

/-- One event in a network: anybody ticks, in any order, and sends whatever it likes. -/
inductive SimStep (auth : Option SignatureScheme) :
    SimNetwork F U → SimEvent F U → SimNetwork F U → Prop
  | createWorld (net : SimNetwork F U) (w : World F U) :
      SimStep auth net (.createWorld w) (net.createWorld w)
  | rebuildGrid (net : SimNetwork F U) : SimStep auth net .rebuildGrid net.rebuildGrid
  | beaconTick (net : SimNetwork F U) (i : ℕ) (w : World F U) (hw : net.worlds[i]? = some w) :
      SimStep auth net (.beaconTick i) (net.beaconTick auth i w)
  | systemTick (net : SimNetwork F U) (i : ℕ) (w : World F U) (s : ShippedSystem)
      (hw : net.worlds[i]? = some w) (hs : s ≠ .beacon) :
      SimStep auth net (.systemTick i s) (net.systemTick auth i w s)
  | send (net : SimNetwork F U) (i : ℕ) (p : Packet F) :
      SimStep auth net (.send i p) (net.sendAll i [p])
  | other (net : SimNetwork F U) (i : ℕ) (w w' : World F U) (hw : net.worlds[i]? = some w)
      (hidentity : w'.identity = w.identity) : SimStep auth net (.other i) (net.setWorld i w')

/-- No directed message for another waits in the participant's inbox. -/
def Participant.HoldsOnlyItsOwn (p : Participant F) : Prop :=
  ∀ m ∈ p.inboundMessages, ¬ m.ForAnother p.identity

/-- What holds of a network: the bus has put directed messages where they belong. -/
structure DirectedInv (net : SimNetwork F U) : Prop where
  wired : net.Wired
  inboxes : ∀ p ∈ net.bus.participants, p.HoldsOnlyItsOwn

omit [FloatScalar F] in
/-- One more message, which is not for another. -/
theorem Participant.HoldsOnlyItsOwn.receiveMessage {p : Participant F} (h : p.HoldsOnlyItsOwn)
    {msg : Message F} (hmsg : ¬ msg.ForAnother p.identity) :
    (p.receiveMessage msg).HoldsOnlyItsOwn := by
  intro m hm
  rcases List.mem_append.mp hm with hold | hnew
  · exact h m hold
  · rw [List.mem_singleton.mp hnew]
    exact hmsg

/-- **The bus looks at the recipient.** -/
theorem SimBus.holdsOnlyItsOwn_sendOnBus {b : SimBus F} (fromIdx : ℕ) (p : Packet F)
    (h : ∀ q ∈ b.participants, q.HoldsOnlyItsOwn) :
    ∀ q ∈ (p.sendOnBus fromIdx b).participants, q.HoldsOnlyItsOwn := by
  cases p with
  | beacon sv =>
    show ∀ q ∈ (b.deliverBeacon fromIdx sv).participants, _
    unfold SimBus.deliverBeacon
    split
    · exact h
    · exact SimBus.forall_updateAll (f := Participant.receiveBeacon sv) (fun _ hq => hq) _ h
  | message msg =>
    show ∀ q ∈ (b.deliverMessage fromIdx msg).participants, _
    unfold SimBus.deliverMessage
    split
    · next hbroadcast =>
      split
      · exact h
      · refine SimBus.forall_updateAll (fun q hq => ?_) _ h
        refine hq.receiveMessage fun hother => ?_
        exact absurd (hbroadcast.symm.trans hother.1) (by decide)
    · split
      · exact h
      · split
        · exact h
        · next toIdx hto =>
          -- the participant that was found has the id that the message names
          refine SimBus.forall_update (fun q hq hown => ?_) h
          refine hown.receiveMessage fun hother => hother.2 ?_
          have hfound := List.find?_some hto
          rw [hq] at hfound
          exact (Option.some.inj (of_decide_eq_true hfound).2).symm

section Bus

variable {auth : Option SignatureScheme} {net net' : SimNetwork F U} {e : SimEvent F U}

theorem DirectedInv.sendAll (hI : DirectedInv net) (i : ℕ) (ps : List (Packet F)) :
    DirectedInv (net.sendAll i ps) where
  wired := hI.wired.sendAll i ps
  inboxes := List.foldlRecOn
    (motive := fun b : SimBus F => ∀ q ∈ b.participants, q.HoldsOnlyItsOwn) ps _ hI.inboxes
    fun _ ih p _ => SimBus.holdsOnlyItsOwn_sendOnBus i p ih

omit [FloatScalar F] in
/-- The world of a participant is replaced by one with the same id. -/
theorem DirectedInv.setWorld (hI : DirectedInv net) {i : ℕ} {w w' : World F U}
    (hw : net.worlds[i]? = some w) (hidentity : w'.identity = w.identity) :
    DirectedInv (net.setWorld i w') where
  wired := hI.wired.setWorld hw hidentity
  inboxes := by
    refine SimBus.forall_update ?_ hI.inboxes
    exact fun q _ hq => hq

omit [FloatScalar F] in
theorem DirectedInv.polled (hI : DirectedInv net) (i : ℕ) : DirectedInv (net.polled i) where
  wired := hI.wired.polled i
  inboxes := by
    refine SimBus.forall_update ?_ (SimBus.forall_update ?_ hI.inboxes)
    · rintro q - - m ⟨⟩
    · exact fun q _ hq => hq

/-- **Every event keeps the inboxes in order.** -/
theorem DirectedInv.step (hI : DirectedInv net) (hst : SimStep auth net e net') :
    DirectedInv net' := by
  cases hst with
  | createWorld w =>
    refine ⟨hI.wired.createWorld w, fun q hq => ?_⟩
    rcases List.mem_append.mp hq with hold | hnew
    · exact hI.inboxes q hold
    · rw [List.mem_singleton.mp hnew]
      rintro m ⟨⟩
  | rebuildGrid => exact ⟨hI.wired, hI.inboxes⟩
  | beaconTick i w hw =>
    exact ((hI.polled i).sendAll i _).setWorld hw
      (ShippedSystem.beacon.identity_tick auth (net.polling i w))
  | systemTick i w s hw hs =>
    exact (hI.sendAll i _).setWorld hw (s.identity_tick auth (net.polling i w))
  | send i p => exact hI.sendAll i [p]
  | other i w w' hw hidentity => exact hI.setWorld hw hidentity

omit [FloatScalar F] in
/-- A poll returns what waits in the inbox. -/
theorem DirectedInv.offersOnlyItsOwn (hI : DirectedInv net) {i : ℕ} {w : World F U}
    (hw : net.worlds[i]? = some w) : (net.polling i w).OffersOnlyItsOwn := by
  obtain ⟨p, hp, hidentity, -⟩ := hI.wired.participant hw
  intro m hm
  change m ∈ (net.bus.participants[i]?.map Participant.inboundMessages).getD [] at hm
  rw [hp] at hm
  show ¬ m.ForAnother w.identity
  rw [← hidentity]
  exact hI.inboxes p (List.mem_of_getElem? hp) m hm

end Bus

/-! ### On the UDP transport -/

variable (F U) in
/-- A group on UDP. -/
structure UdpGroup (n : ℕ) where
  worlds : Fin n → World F U
  ports : Fin n → UdpPort
  /-- every packet that somebody has sent -/
  aired : List (Packet F)

variable (F U) in
inductive UdpEvent (n : ℕ) where
  /-- a tick of `BeaconSystem`: `early` comes to the socket before the first poll, `late` between
  the two -/
  | beaconTick (i : Fin n) (early late : List (Packet F))
  | systemTick (i : Fin n) (s : ShippedSystem)
  /-- the mission of world `i` sends -/
  | send (i : Fin n) (p : Packet F)
  /-- the clock of world `i`, or its mission -/
  | other (i : Fin n)

variable {n : ℕ}

namespace UdpGroup

/-- The worlds, each with its transport opened with `self_id = identity()`. -/
def start (worlds : Fin n → World F U) : UdpGroup F U n where
  worlds
  ports := fun i => { transport := { selfId := (worlds i).identity } }
  aired := []

variable (g : UdpGroup F U n)

/-- What the polls of a tick do. -/
def polls (i : Fin n) (early late : List (Packet F)) :
    UdpPort × List (StateVector UInt32) × List (Message UInt32) :=
  ((g.ports i).arrive (early.map Packet.onWire)).poll (late.map Packet.onWire)

/-- The world that polls. -/
def polling (i : Fin n) (early late : List (Packet F)) : World F U :=
  (g.worlds i).onUdp (g.polls i early late).2.1 (g.polls i early late).2.2

/-- What can come to the socket of world `i` during a tick: whatever was sent, its own beacon of
this tick included. -/
def onAir (auth : Option SignatureScheme) (i : Fin n) : List (Packet F) :=
  g.aired ++ (((g.worlds i).onUdp [] []).outgoing auth).map .beacon

/-- The packets that are sent in an event. -/
def sends (auth : Option SignatureScheme) : UdpEvent F n → List (Packet F)
  | .beaconTick i early late => ((g.polling i early late).beaconTick auth).sent
  | .systemTick i s => (s.tick auth ((g.worlds i).onUdp [] [])).sent
  | .send _ p => [p]
  | .other _ => []

def setWorld (i : Fin n) (w : World F U) : UdpGroup F U n :=
  { g with worlds := Function.update g.worlds i w }

/-- The packets go to the whole group. -/
def air (ps : List (Packet F)) : UdpGroup F U n :=
  { g with aired := g.aired ++ ps }

def beaconTick (auth : Option SignatureScheme) (i : Fin n) (early late : List (Packet F)) :
    UdpGroup F U n :=
  let ports := Function.update g.ports i (g.polls i early late).1
  { g.setWorld i ((g.polling i early late).beaconTick auth) with ports }.air
    (g.sends auth (.beaconTick i early late))

/-- A tick of a system that does not poll. -/
def systemTick (auth : Option SignatureScheme) (i : Fin n) (s : ShippedSystem) : UdpGroup F U n :=
  (g.setWorld i (s.tick auth ((g.worlds i).onUdp [] []))).air (g.sends auth (.systemTick i s))

/-- **The condition.** No directed message is sent to which a member is a third party: each member
is its recipient, or its sender, as it says. -/
def NoThirdParty (auth : Option SignatureScheme) (g : UdpGroup F U n) (e : UdpEvent F n) : Prop :=
  ∀ m, Packet.message m ∈ g.sends auth e → ∀ j, m.Concerns (g.worlds j).identity

end UdpGroup

/-- One event in a group. Every datagram reaches everybody's socket, at any time. -/
inductive UdpStep (auth : Option SignatureScheme) :
    UdpGroup F U n → UdpEvent F n → UdpGroup F U n → Prop
  | beaconTick (g : UdpGroup F U n) (i : Fin n) (early late : List (Packet F))
      (hmedium : ∀ p ∈ early ++ late, p ∈ g.onAir auth i) :
      UdpStep auth g (.beaconTick i early late) (g.beaconTick auth i early late)
  | systemTick (g : UdpGroup F U n) (i : Fin n) (s : ShippedSystem) (hs : s ≠ .beacon) :
      UdpStep auth g (.systemTick i s) (g.systemTick auth i s)
  | send (g : UdpGroup F U n) (i : Fin n) (p : Packet F) :
      UdpStep auth g (.send i p) (g.air [p])
  | other (g : UdpGroup F U n) (i : Fin n) (w : World F U)
      (hidentity : w.identity = (g.worlds i).identity) : UdpStep auth g (.other i) (g.setWorld i w)

section Udp

variable {auth : Option SignatureScheme} {ids : Fin n → HierarchicalID} {g g' : UdpGroup F U n}
  {e : UdpEvent F n}

/-- What holds of a group in any case: nobody's id changes, the transports know it, and between the
ticks nothing waits in a socket. -/
structure UdpGroup.Wired (ids : Fin n → HierarchicalID) (g : UdpGroup F U n) : Prop where
  identity : ∀ i, (g.worlds i).identity = ids i
  selfId : ∀ i, (g.ports i).transport.selfId = ids i
  drained : ∀ i, (g.ports i).socket = []

omit [FloatScalar F] in
/-- A world that keeps its id. -/
theorem UdpGroup.Wired.identity_setWorld (hI : g.Wired ids) {i : Fin n} {w : World F U}
    (hidentity : w.identity = ids i) (j : Fin n) :
    ((g.setWorld i w).worlds j).identity = ids j := by
  show (Function.update g.worlds i w j).identity = ids j
  by_cases hj : j = i
  · subst hj
    rw [Function.update_self]
    exact hidentity
  · rw [Function.update_of_ne hj]
    exact hI.identity j

/-- **Every event.** -/
theorem UdpGroup.Wired.step (hI : g.Wired ids) (hst : UdpStep auth g e g') : g'.Wired ids := by
  cases hst with
  | beaconTick i early late hmedium =>
    -- the poll drains the socket, and its filter is not touched
    have hidentity : ((g.polling i early late).beaconTick auth).identity = ids i :=
      (ShippedSystem.beacon.identity_tick auth (g.polling i early late)).trans (hI.identity i)
    obtain ⟨-, -, hself, -, -, hsocket⟩ :=
      ((g.ports i).arrive (early.map Packet.onWire)).poll_eq (late.map Packet.onWire)
    have hearly : ((g.ports i).arrive (early.map Packet.onWire)).socket
        = early.map Packet.onWire := by
      show (g.ports i).socket ++ _ = _
      rw [hI.drained i, List.nil_append]
    rw [hearly, unread_onWire, List.nil_append, unread_onWire] at hsocket
    refine ⟨fun j => hI.identity_setWorld hidentity j, fun j => ?_, fun j => ?_⟩
    · show (Function.update g.ports i (g.polls i early late).1 j).transport.selfId = ids j
      by_cases hj : j = i
      · subst hj
        rw [Function.update_self]
        exact hself.trans (hI.selfId j)
      · rw [Function.update_of_ne hj]
        exact hI.selfId j
    · show (Function.update g.ports i (g.polls i early late).1 j).socket = []
      by_cases hj : j = i
      · subst hj
        rw [Function.update_self]
        exact hsocket
      · rw [Function.update_of_ne hj]
        exact hI.drained j
  | systemTick i s hs =>
    have hidentity := (s.identity_tick auth ((g.worlds i).onUdp [] [])).trans (hI.identity i)
    exact ⟨fun j => hI.identity_setWorld hidentity j, hI.selfId, hI.drained⟩
  | send i p => exact ⟨hI.identity, hI.selfId, hI.drained⟩
  | other i w hidentity =>
    exact ⟨fun j => hI.identity_setWorld (hidentity.trans (hI.identity i)) j, hI.selfId, hI.drained⟩

omit [FloatScalar F] in
theorem UdpGroup.Wired.start (worlds : Fin n → World F U) :
    (UdpGroup.start worlds).Wired fun i => (worlds i).identity :=
  ⟨fun _ => rfl, fun _ => rfl, fun _ => rfl⟩

/-- **A third party is offered the message.** -/
theorem UdpGroup.Wired.offered (hI : g.Wired ids) {m : Message F} {k : Fin n}
    (hother : m.ForAnother (ids k)) (hsender : m.sender ≠ ids k) :
    ¬ (g.polling k [.message m] []).OffersOnlyItsOwn := by
  intro honly
  obtain ⟨-, hmessages, -⟩ :=
    ((g.ports k).arrive ([.message m].map Packet.onWire)).poll_eq
      (([] : List (Packet F)).map Packet.onWire)
  have hsocket : ((g.ports k).arrive ([.message m].map Packet.onWire)).socket
      = [.message m].map Packet.onWire := by
    show (g.ports k).socket ++ _ = _
    rw [hI.drained k, List.nil_append]
  have hpolled : m.bits ∈ (g.polls k [.message m] []).2.2 := by
    refine hmessages ▸ List.mem_append_left _ (List.mem_append_right _ ?_)
    rw [hsocket, foreignMessages_onWire]
    refine List.mem_map.mpr ⟨m, List.mem_filter.mpr ⟨List.mem_singleton_self m, ?_⟩, rfl⟩
    exact decide_eq_true fun hself => hsender (hself.trans (hI.selfId k))
  refine honly (Message.ofBits m.bits) (List.mem_map_of_mem hpolled) ?_
  show m.ForAnother (g.worlds k).identity
  rw [hI.identity k]
  exact hother

/-- What holds while there are no third parties: what is on the air, and what a transport has read,
concerns everybody. -/
structure UdpGroup.Concerning (ids : Fin n → HierarchicalID) (g : UdpGroup F U n) : Prop where
  aired : ∀ m, Packet.message m ∈ g.aired → ∀ j, m.Concerns (ids j)
  ports : ∀ i, (g.ports i).Holds (fun _ => True) fun m => m.Concerns (ids i)

/-- What may come to a socket. -/
theorem UdpGroup.Concerning.carries (hC : g.Concerning ids) {i : Fin n} {p : Packet F}
    (hp : p ∈ g.onAir auth i) (j : Fin n) :
    Carries (fun _ => True) (fun m => m.Concerns (ids j)) p.onWire := by
  cases p with
  | beacon b => exact carries_beacon trivial
  | message m =>
    refine carries_message ?_
    rcases List.mem_append.mp hp with haired | hown
    · exact hC.aired m haired j
    · obtain ⟨b, -, hsame⟩ := List.mem_map.mp hown
      cases hsame

/-- The polls of a tick. -/
theorem UdpGroup.Concerning.polls (hC : g.Concerning ids) {i : Fin n} {early late : List (Packet F)}
    (hmedium : ∀ p ∈ early ++ late, p ∈ g.onAir auth i) :
    (g.polls i early late).1.Holds (fun _ => True) (fun m => m.Concerns (ids i)) ∧
      ∀ m ∈ (g.polls i early late).2.2, m.Concerns (ids i) ∧
        m.sender ≠ (g.ports i).transport.selfId := by
  have harrive : ((g.ports i).arrive (early.map Packet.onWire)).Holds (fun _ => True)
      fun m => m.Concerns (ids i) := by
    refine (hC.ports i).arrive fun datagram hd => ?_
    obtain ⟨p, hp, rfl⟩ := List.mem_map.mp hd
    exact hC.carries (hmedium p (List.mem_append_left _ hp)) i
  have hlate : ∀ datagram ∈ late.map Packet.onWire,
      Carries (fun _ => True) (fun m => m.Concerns (ids i)) datagram := by
    intro datagram hd
    obtain ⟨p, hp, rfl⟩ := List.mem_map.mp hd
    exact hC.carries (hmedium p (List.mem_append_right _ hp)) i
  obtain ⟨hport, -, hmessages⟩ := harrive.poll hlate
  exact ⟨hport, hmessages⟩

omit [FloatScalar F] in
theorem UdpGroup.Concerning.air (hC : g.Concerning ids) {ps : List (Packet F)}
    (hps : ∀ m, Packet.message m ∈ ps → ∀ j, m.Concerns (ids j)) : (g.air ps).Concerning ids where
  aired := by
    intro m hm
    rcases List.mem_append.mp hm with hold | hnew
    · exact hC.aired m hold
    · exact hps m hnew
  ports := hC.ports

/-- **An event without a third party.** -/
theorem UdpGroup.Concerning.step (hC : g.Concerning ids) (hI : g.Wired ids)
    (hst : UdpStep auth g e g') (hguard : g.NoThirdParty auth e) : g'.Concerning ids := by
  have hsends : ∀ m, Packet.message m ∈ g.sends auth e → ∀ j, m.Concerns (ids j) := by
    intro m hm j
    rw [← hI.identity j]
    exact hguard m hm j
  cases hst with
  | beaconTick i early late hmedium =>
    refine UdpGroup.Concerning.air
      (g := { g.setWorld i ((g.polling i early late).beaconTick auth) with
        ports := Function.update g.ports i (g.polls i early late).1 })
      ⟨hC.aired, fun j => ?_⟩ hsends
    show (Function.update g.ports i (g.polls i early late).1 j).Holds _ _
    -- the polling robot hands over; the others keep their ports
    by_cases hj : j = i
    · subst hj
      rw [Function.update_self]
      exact (hC.polls hmedium).1
    · rw [Function.update_of_ne hj]
      exact hC.ports j
  | systemTick i s hs =>
    exact UdpGroup.Concerning.air (g := g.setWorld i (s.tick auth ((g.worlds i).onUdp [] [])))
      ⟨hC.aired, hC.ports⟩ hsends
  | send i p => exact hC.air hsends
  | other i w hidentity => exact ⟨hC.aired, hC.ports⟩

omit [FloatScalar F] in
theorem UdpGroup.Concerning.start (worlds : Fin n → World F U) (ids : Fin n → HierarchicalID) :
    (UdpGroup.start worlds).Concerning ids where
  aired := by rintro m ⟨⟩
  ports := fun i => ⟨by rintro sv ⟨⟩, by rintro msg ⟨⟩, by rintro datagram ⟨⟩⟩

/-- While there are no third parties, a poll returns nothing that is directed to somebody else. -/
theorem UdpGroup.Concerning.offersOnlyItsOwn (hC : g.Concerning ids) (hI : g.Wired ids) {i : Fin n}
    {early late : List (Packet F)} (hmedium : ∀ p ∈ early ++ late, p ∈ g.onAir auth i) :
    (g.polling i early late).OffersOnlyItsOwn := by
  intro m hm hother
  obtain ⟨m', hm', rfl⟩ := List.mem_map.mp hm
  obtain ⟨hconcerns, hforeign⟩ := (hC.polls hmedium).2 m' hm'
  rw [hI.selfId i] at hforeign
  refine hforeign (hconcerns ?_)
  rw [← hI.identity i]
  exact hother

end Udp

/-- **Where directed messages are offered.** On the simulation bus, in every run, only in the world
that they name. On UDP, in every run without a third party, too; and in any run, once a directed
message is on the air, every third party is offered it when it comes to its socket. -/
theorem directed_offered_only_to_named (auth : Option SignatureScheme) (range : F)
    (worlds : Fin n → World F U) :
    (∀ ls net, Run (SimStep auth) (SimNetwork.init range : SimNetwork F U) ls net →
      ∀ i w, net.worlds[i]? = some w → (net.polling i w).OffersOnlyItsOwn) ∧
    (∀ ls g, Run (Guarded (UdpStep auth) (UdpGroup.NoThirdParty auth)) (.start worlds) ls g →
      ∀ i early late, (∀ p ∈ early ++ late, p ∈ g.onAir auth i) →
        (g.polling i early late).OffersOnlyItsOwn) ∧
    ∀ ls g, Run (UdpStep auth) (.start worlds) ls g →
      ∀ m, Packet.message m ∈ g.aired → ∀ k, m.ForAnother (g.worlds k).identity →
        m.sender ≠ (g.worlds k).identity → ¬ (g.polling k [.message m] []).OffersOnlyItsOwn := by
  refine ⟨fun ls net hrun i w hw => ?_, fun ls g hrun i early late hmedium => ?_,
    fun ls g hrun m _ k hother hsender => ?_⟩
  · have hI : DirectedInv net := by
      refine hrun.invariant (I := DirectedInv) (fun _ _ _ hI hst => hI.step hst) ⟨rfl, ?_⟩
      rintro p ⟨⟩
    exact hI.offersOnlyItsOwn hw
  · have hI := hrun.invariant
      (I := fun g => g.Wired (fun i => (worlds i).identity) ∧
        g.Concerning fun i => (worlds i).identity)
      (fun _ _ _ hI hst => ⟨hI.1.step hst.2, hI.2.step hI.1 hst.2 hst.1⟩)
      ⟨UdpGroup.Wired.start worlds, UdpGroup.Concerning.start worlds _⟩
    exact hI.2.offersOnlyItsOwn hI.1 hmedium
  · have hI := hrun.invariant (I := UdpGroup.Wired fun i => (worlds i).identity)
      (fun _ _ _ hI hst => hI.step hst) (UdpGroup.Wired.start worlds)
    rw [hI.identity k] at hother hsender
    exact hI.offered hother hsender

/-! ### Two members, and three -/

/-- The id of a member. -/
def memberId (i : Fin n) : HierarchicalID :=
  ⟨1, ⟨Vector.replicate 16 (UInt8.ofNat (i + 1))⟩⟩

/-- Members that have just been started. -/
def members (n : ℕ) (i : Fin n) : World ℚ Unit :=
  World.init .default (memberId i) none [] none none ()

/-- From the first member to the second. -/
def firstToSecond : Message ℚ :=
  { Message.empty with sender := memberId (0 : Fin 2), recipient := memberId (1 : Fin 2) }

/-- The first of two members has sent its message, and the second polls it. -/
theorem two_members_deliver : ∃ ls g,
    Run (Guarded (UdpStep none) (UdpGroup.NoThirdParty none)) (.start (members 2)) ls g ∧
      (g.polling 1 [.message firstToSecond] []).rxMessages ≠ [] ∧
      (g.polling 1 [.message firstToSecond] []).OffersOnlyItsOwn := by
  have hsend : Guarded (UdpStep none) (UdpGroup.NoThirdParty none) (.start (members 2))
      (.send 0 (.message firstToSecond))
      ((UdpGroup.start (members 2)).air [.message firstToSecond]) := by
    refine ⟨?_, UdpStep.send _ _ _⟩
    intro m hm j
    obtain rfl := Packet.message.inj (List.mem_singleton.mp hm)
    show firstToSecond.Concerns (memberId j)
    fin_cases j
    · exact fun _ => rfl
    · exact fun hother => absurd rfl hother.2
  have hrun := Run.single hsend
  refine ⟨_, _, hrun, by decide +kernel, ?_⟩
  refine (directed_offered_only_to_named none 0 (members 2)).2.1 _ _ hrun 1 _ _ ?_
  intro p hp
  exact List.mem_append_left _ hp

/-- **A third member is offered the message, too.** -/
theorem third_member_offered :
    ¬ ∀ (ls : List (UdpEvent ℚ 3)) (g : UdpGroup ℚ Unit 3),
      Run (UdpStep none) (.start (members 3)) ls g →
      ∀ i early late, (∀ p ∈ early ++ late, p ∈ g.onAir none i) →
        (g.polling i early late).OffersOnlyItsOwn := by
  intro hclaim
  have hsend : UdpStep none (.start (members 3)) (.send 0 (.message firstToSecond))
      ((UdpGroup.start (members 3)).air [.message firstToSecond]) := UdpStep.send _ _ _
  have hI := (UdpGroup.Wired.start (members 3)).step hsend
  have hthird : firstToSecond.ForAnother (members 3 2).identity := ⟨by decide, by decide⟩
  refine hI.offered hthird (by decide) (hclaim _ _ (Run.single hsend) 2 _ _ ?_)
  intro p hp
  exact List.mem_append_left _ hp

end MithAtomas
