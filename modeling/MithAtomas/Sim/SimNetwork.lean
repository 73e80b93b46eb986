import MithAtomas.Core.World
import MithAtomas.Sim.SimBus

/-!
# Worlds on a simulation bus

World `i` of a network is participant `i` of the bus. `SimTransport` of `src/sim/sim_bus.cpp` hands
every packet to the bus when it is sent, and polls the participant's inboxes. Nothing that a world
sends comes back to it, so it does not matter whether its inboxes are drained before it sends or
after (`SimNetwork.beaconTick`).
-/

namespace MithAtomas

variable {F U : Type} [FloatScalar F]

/-- What a participant knows of its world: the id, and where it is. -/
def Participant.wiring (p : Participant F) : HierarchicalID × Option (PositionComponent F) :=
  (p.identity, p.posFn)

/-- `SimTransport::send_beacon` and `send_message`. -/
def Packet.sendOnBus (fromIdx : ℕ) (b : SimBus F) : Packet F → SimBus F
  | .beacon sv => b.deliverBeacon fromIdx sv
  | .message msg => b.deliverMessage fromIdx msg

variable (F U) in
structure SimNetwork where
  bus : SimBus F
  worlds : List (World F U)

namespace SimNetwork

variable (net : SimNetwork F U)

/-- `SimBus::SimBus(config)`. -/
def init (commRangeM : F) : SimNetwork F U where
  bus := .init commRangeM
  worlds := []

/-- `create_world`, and `init` of the world. -/
def createWorld (w : World F U) : SimNetwork F U where
  bus := net.bus.createWorld w.identity w.position
  worlds := net.worlds ++ [w]

/-- The start of a step of `advance`. -/
def rebuildGrid : SimNetwork F U :=
  { net with bus := net.bus.rebuildGrid }

/-- The packets that world `i` sends, one after the other. -/
def sendAll (i : ℕ) (packets : List (Packet F)) : SimNetwork F U :=
  { net with bus := packets.foldl (Packet.sendOnBus i) net.bus }

/-- World `i` is now `w`, and `pos_fn` of its participant returns its position. -/
def setWorld (i : ℕ) (w : World F U) : SimNetwork F U where
  bus := net.bus.setPosition i w.position
  worlds := net.worlds.set i w

/-- World `i` on its `SimTransport`: both channels are supported, and the polls return what is in
the inboxes. Nothing has been sent yet. -/
def polling (i : ℕ) (w : World F U) : World F U :=
  { w with
    beaconTransport := some ⟨true⟩
    messageTransport := some ⟨true⟩
    rxBeacons := (net.bus.drainInboxBeacons i).1
    rxMessages := (net.bus.drainInboxMessages i).1
    sent := [] }

/-- The polls leave both inboxes empty. -/
def polled (i : ℕ) : SimNetwork F U :=
  { net with bus := ((net.bus.drainInboxBeacons i).2.drainInboxMessages i).2 }

/-- A tick of `BeaconSystem` in world `i`, which is `w`. -/
def beaconTick (auth : Option SignatureScheme) (i : ℕ) (w : World F U) : SimNetwork F U :=
  let w' := (net.polling i w).beaconTick auth
  ((net.polled i).sendAll i w'.sent).setWorld i w'

/-- A tick of a system that does not poll. -/
def systemTick (auth : Option SignatureScheme) (i : ℕ) (w : World F U) (s : ShippedSystem) :
    SimNetwork F U :=
  let w' := s.tick auth (net.polling i w)
  (net.sendAll i w'.sent).setWorld i w'

end SimNetwork

/-! ### What a bus keeps -/

namespace SimBus

variable {b : SimBus F}

omit [FloatScalar F] in
/-- An update keeps of every participant what it keeps of the one it is about. -/
theorem forall_update {I : Participant F → Prop} {f : Participant F → Participant F} {toIdx : ℕ}
    (hf : ∀ p, b.participants[toIdx]? = some p → I p → I (f p)) (h : ∀ p ∈ b.participants, I p) :
    ∀ p ∈ (b.update f toIdx).participants, I p := by
  intro p hp
  obtain ⟨k, hk⟩ := List.mem_iff_getElem?.mp hp
  unfold update at hk
  rw [List.getElem?_modify] at hk
  obtain ⟨q, hq, hqp⟩ := Option.map_eq_some_iff.mp hk
  have hold := h q (List.mem_of_getElem? hq)
  split at hqp
  · next hidx =>
    subst hidx
    exact hqp ▸ hf q hq hold
  · exact hqp ▸ hold

omit [FloatScalar F] in
theorem forall_updateAll {I : Participant F → Prop} {f : Participant F → Participant F}
    (hf : ∀ p, I p → I (f p)) (tos : List ℕ) (h : ∀ p ∈ b.participants, I p) :
    ∀ p ∈ (b.updateAll f tos).participants, I p := by
  induction tos generalizing b with
  | nil => exact h
  | cons toIdx tos ih => exact ih (forall_update (fun p _ => hf p) h)

omit [FloatScalar F] in
/-- What every update keeps of the one it is about, updates keep of everybody. -/
theorem map_updateAll {A : Type} {g : Participant F → A} {f : Participant F → Participant F}
    (hf : ∀ p, g (f p) = g p) (tos : List ℕ) :
    (b.updateAll f tos).participants.map g = b.participants.map g := by
  induction tos generalizing b with
  | nil => rfl
  | cons toIdx tos ih =>
    refine (ih (b := b.update f toIdx)).trans (List.ext_getElem? fun k => ?_)
    unfold update
    rw [List.getElem?_map, List.getElem?_map, List.getElem?_modify]
    cases b.participants[k]? with
    | none => rfl
    | some p =>
      show some (g (if toIdx = k then f p else p)) = some (g p)
      split
      · rw [hf p]
      · rfl

/-- A packet moves and renames nobody. -/
theorem wirings_sendOnBus (fromIdx : ℕ) (p : Packet F) :
    (p.sendOnBus fromIdx b).participants.map Participant.wiring
      = b.participants.map Participant.wiring := by
  cases p with
  | beacon sv =>
    show (b.deliverBeacon fromIdx sv).participants.map _ = _
    unfold deliverBeacon
    split
    · rfl
    · exact map_updateAll (f := Participant.receiveBeacon sv) (fun _ => rfl) _
  | message msg =>
    show (b.deliverMessage fromIdx msg).participants.map _ = _
    unfold deliverMessage
    split
    · split
      · rfl
      · exact map_updateAll (f := Participant.receiveMessage msg) (fun _ => rfl) _
    · split
      · rfl
      · split
        · rfl
        · next toIdx _ =>
          exact map_updateAll (f := Participant.receiveMessage msg) (fun _ => rfl) [toIdx]

theorem wirings_foldl_sendOnBus (fromIdx : ℕ) (ps : List (Packet F)) :
    (ps.foldl (Packet.sendOnBus fromIdx) b).participants.map Participant.wiring
      = b.participants.map Participant.wiring :=
  List.foldlRecOn (motive := fun b' : SimBus F => b'.participants.map Participant.wiring
    = b.participants.map Participant.wiring) ps _ rfl
    fun _ ih p _ => (wirings_sendOnBus fromIdx p).trans ih

end SimBus

namespace SimNetwork

variable {net : SimNetwork F U}

/-- The participants are the worlds: their ids, and where they are. -/
def Wired (net : SimNetwork F U) : Prop :=
  net.bus.participants.map Participant.wiring
    = net.worlds.map fun w => (w.identity, some w.position)

omit [FloatScalar F] in
theorem Wired.createWorld (h : net.Wired) (w : World F U) : (net.createWorld w).Wired := by
  show (net.bus.participants ++ [_]).map _ = (net.worlds ++ [w]).map _
  rw [List.map_append, List.map_append, h]
  rfl

theorem Wired.sendAll (h : net.Wired) (i : ℕ) (ps : List (Packet F)) : (net.sendAll i ps).Wired :=
  (SimBus.wirings_foldl_sendOnBus i ps).trans h

omit [FloatScalar F] in
theorem Wired.polled (h : net.Wired) (i : ℕ) : (net.polled i).Wired := by
  refine Eq.trans ?_ h
  show ((net.bus.drainInboxBeacons i).2.drainInboxMessages i).2.participants.map _ = _
  refine (SimBus.map_updateAll ?_ [i]).trans (SimBus.map_updateAll ?_ [i])
  · exact fun p => rfl
  · exact fun p => rfl

omit [FloatScalar F] in
/-- The participant of a world. -/
theorem Wired.participant (h : net.Wired) {i : ℕ} {w : World F U} (hw : net.worlds[i]? = some w) :
    ∃ p, net.bus.participants[i]? = some p ∧ p.identity = w.identity ∧
      p.posFn = some w.position := by
  have hsame : (net.bus.participants.map Participant.wiring)[i]?
      = (net.worlds.map fun w => (w.identity, some w.position))[i]? := by
    rw [h]
  rw [List.getElem?_map, List.getElem?_map, hw] at hsame
  obtain ⟨p, hp, hwiring⟩ := Option.map_eq_some_iff.mp hsame
  exact ⟨p, hp, congrArg Prod.fst hwiring, congrArg Prod.snd hwiring⟩

omit [FloatScalar F] in
/-- A world that keeps its id. -/
theorem Wired.setWorld (h : net.Wired) {i : ℕ} {w w' : World F U} (hw : net.worlds[i]? = some w)
    (hidentity : w'.identity = w.identity) : (net.setWorld i w').Wired := by
  obtain ⟨p, hp, hid, -⟩ := h.participant hw
  have hlt := (List.getElem?_eq_some_iff.mp hw).1
  refine List.ext_getElem? fun k => ?_
  show ((net.bus.participants.modify i _).map _)[k]? = ((net.worlds.set i w').map _)[k]?
  rw [List.getElem?_map, List.getElem?_map, List.getElem?_modify, List.getElem?_set]
  by_cases hk : i = k
  · subst hk
    rw [if_pos rfl, if_pos hlt, hp]
    show some (Participant.wiring (if i = i then _ else p)) = some (w'.identity, some w'.position)
    rw [if_pos rfl, hidentity, ← hid]
    rfl
  · -- the others are as they were
    have hsame : (net.bus.participants.map Participant.wiring)[k]?
        = (net.worlds.map fun w => (w.identity, some w.position))[k]? := by
      rw [h]
    rw [List.getElem?_map, List.getElem?_map] at hsame
    rw [if_neg hk, ← hsame]
    cases net.bus.participants[k]? with
    | none => rfl
    | some q =>
      show some (Participant.wiring (if i = k then _ else q)) = _
      rw [if_neg hk]
      rfl

end SimNetwork

end MithAtomas
