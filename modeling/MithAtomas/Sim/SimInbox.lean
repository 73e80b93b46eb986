import MithAtomas.Sim.SimBusDelivery
import MithAtomas.Sim.SimNetwork

/-!
# The beacons that wait on a bus

`SimBus.inbox b k` is what the next `poll_beacons` of participant `k` returns. Only a beacon that is
sent adds to it (`mem_inbox_sendOnBus`), only a poll takes from it (`inbox_polled`). While the grid
files everybody where they are, a beacon reaches everybody in range (`SimNetwork.received`).
-/

namespace MithAtomas

namespace SimBus

section Scalars

variable {F : Type} [FloatScalar F] {b : SimBus F}

/-- The beacons that wait for participant `k`. -/
def inbox (b : SimBus F) (k : ℕ) : List (StateVector F) :=
  (b.drainInboxBeacons k).1

omit [FloatScalar F] in
theorem inbox_eq (b : SimBus F) (k : ℕ) :
    b.inbox k = ((b.participants.map Participant.inboundBeacons)[k]?).getD [] := by
  rw [List.getElem?_map]
  rfl

omit [FloatScalar F] in
/-- Updates that do not touch the inboxes. -/
theorem inbox_updateAll {f : Participant F → Participant F}
    (hf : ∀ p, (f p).inboundBeacons = p.inboundBeacons) (tos : List ℕ) (k : ℕ) :
    (b.updateAll f tos).inbox k = b.inbox k := by
  rw [inbox_eq, inbox_eq, map_updateAll hf]

omit [FloatScalar F] in
/-- One beacon, to one participant. -/
theorem mem_inbox_update {sv sv' : StateVector F} {toIdx k : ℕ} :
    sv' ∈ (b.update (Participant.receiveBeacon sv) toIdx).inbox k ↔
      sv' ∈ b.inbox k ∨ (sv' = sv ∧ k = toIdx ∧ k < b.participants.length) := by
  unfold inbox drainInboxBeacons
  simp only
  rw [update_participants]
  cases hp : b.participants[k]? with
  | none =>
    have hge := List.getElem?_eq_none_iff.mp hp
    constructor
    · intro hmem
      split at hmem <;> cases hmem
    · rintro (⟨⟨⟩⟩ | ⟨-, -, hlt⟩)
      exact absurd hlt (not_lt.mpr hge)
  | some p =>
    have hlt := (List.getElem?_eq_some_iff.mp hp).1
    by_cases hk : k = toIdx
    · rw [if_pos hk]
      show sv' ∈ p.inboundBeacons ++ [sv] ↔ sv' ∈ p.inboundBeacons ∨ _
      rw [List.mem_append, List.mem_singleton]
      exact or_congr_right ⟨fun h => ⟨h, hk, hlt⟩, fun h => h.1⟩
    · rw [if_neg hk]
      exact ⟨.inl, fun h => h.resolve_right fun hnew => hk hnew.2.1⟩

omit [FloatScalar F] in
/-- One beacon, to some participants. -/
theorem mem_inbox_updateAll {sv sv' : StateVector F} {tos : List ℕ} {k : ℕ} :
    sv' ∈ (b.updateAll (Participant.receiveBeacon sv) tos).inbox k ↔
      sv' ∈ b.inbox k ∨ (sv' = sv ∧ k ∈ tos ∧ k < b.participants.length) := by
  induction tos generalizing b with
  | nil =>
    refine ⟨.inl, fun h => h.resolve_right ?_⟩
    rintro ⟨-, ⟨⟩, -⟩
  | cons toIdx tos ih =>
    have hlen : (b.update (Participant.receiveBeacon sv) toIdx).participants.length
        = b.participants.length := List.length_modify ..
    refine (ih (b := b.update _ toIdx)).trans ?_
    rw [mem_inbox_update, hlen, List.mem_cons]
    tauto

/-- **A packet adds to an inbox** at most the beacon that it is. -/
theorem mem_inbox_sendOnBus {p : Packet F} {fromIdx k : ℕ} {sv : StateVector F}
    (h : sv ∈ (p.sendOnBus fromIdx b).inbox k) : sv ∈ b.inbox k ∨ p = .beacon sv := by
  cases p with
  | beacon sv' =>
    change sv ∈ (b.deliverBeacon fromIdx sv').inbox k at h
    unfold deliverBeacon at h
    split at h
    · exact .inl h
    · refine (mem_inbox_updateAll.mp h).imp_right fun hnew => ?_
      rw [hnew.1]
  | message msg =>
    -- messages go to another queue
    refine .inl ?_
    change sv ∈ (b.deliverMessage fromIdx msg).inbox k at h
    unfold deliverMessage at h
    split at h
    · split at h
      · exact h
      · rwa [inbox_updateAll (f := Participant.receiveMessage msg) fun _ => rfl] at h
    · split at h
      · exact h
      · split at h
        · exact h
        · next toIdx _ =>
          have hsame : (b.update (Participant.receiveMessage msg) toIdx).inbox k = b.inbox k :=
            inbox_updateAll (f := Participant.receiveMessage msg) (fun _ => rfl) [toIdx] k
          rwa [hsame] at h

/-- And takes nothing from it. -/
theorem mem_sendOnBus_of_mem {p : Packet F} {fromIdx k : ℕ} {sv : StateVector F}
    (h : sv ∈ b.inbox k) : sv ∈ (p.sendOnBus fromIdx b).inbox k := by
  cases p with
  | beacon sv' =>
    show sv ∈ (b.deliverBeacon fromIdx sv').inbox k
    unfold deliverBeacon
    split
    · exact h
    · exact mem_inbox_updateAll.mpr (.inl h)
  | message msg =>
    show sv ∈ (b.deliverMessage fromIdx msg).inbox k
    unfold deliverMessage
    split
    · split
      · exact h
      · rwa [inbox_updateAll (f := Participant.receiveMessage msg) fun _ => rfl]
    · split
      · exact h
      · split
        · exact h
        · next toIdx _ =>
          have hsame : (b.update (Participant.receiveMessage msg) toIdx).inbox k = b.inbox k :=
            inbox_updateAll (f := Participant.receiveMessage msg) (fun _ => rfl) [toIdx] k
          rwa [hsame]

theorem mem_inbox_foldl {ps : List (Packet F)} {fromIdx k : ℕ} {sv : StateVector F}
    (h : sv ∈ (ps.foldl (Packet.sendOnBus fromIdx) b).inbox k) :
    sv ∈ b.inbox k ∨ .beacon sv ∈ ps := by
  induction ps generalizing b with
  | nil => exact .inl h
  | cons p ps ih =>
    rcases ih h with hone | hrest
    · rcases mem_inbox_sendOnBus hone with hold | rfl
      · exact .inl hold
      · exact .inr List.mem_cons_self
    · exact .inr (List.mem_cons_of_mem p hrest)

theorem mem_foldl_of_mem {ps : List (Packet F)} {fromIdx k : ℕ} {sv : StateVector F}
    (h : sv ∈ b.inbox k) : sv ∈ (ps.foldl (Packet.sendOnBus fromIdx) b).inbox k :=
  List.foldlRecOn (motive := fun b' : SimBus F => sv ∈ b'.inbox k) ps _ h
    fun _ ih _ _ => mem_sendOnBus_of_mem ih

end Scalars

/-! ### Packets and the grid -/

variable {range : ℚ} {b : SimBus ℚ} {filed : List (PositionComponent ℚ)}

/-- Packets leave the grid alone. -/
theorem Reachable.sendAll (h : Reachable range b filed) (fromIdx : ℕ) (ps : List (Packet ℚ)) :
    Reachable range (ps.foldl (Packet.sendOnBus fromIdx) b) filed :=
  List.foldlRecOn (motive := fun b' : SimBus ℚ => Reachable range b' filed) ps _ h
    fun _ ih p _ => by
      cases p with
      | beacon sv => exact ih.deliverBeacon fromIdx sv
      | message msg => exact ih.deliverMessage fromIdx msg

/-- Whoever is filed where it is, and in range, is filed around the sender. -/
theorem filedAround_of_inRange {fromPos pos : PositionComponent ℚ} {k : ℕ}
    (hk : filed[k]? = some pos) (hrange : InRange range pos fromPos) :
    FiledAround range filed fromPos k := by
  intro hpos _
  refine ⟨pos, hk, ?_⟩
  have hcell := cellKeyFor_mem_cellBlock hpos hrange.1 hrange.2
  rwa [div_self hpos.ne', Int.ceil_one] at hcell

end SimBus

namespace SimNetwork

variable {U : Type} {net : SimNetwork ℚ U} {range : ℚ} {filed : List (PositionComponent ℚ)}

theorem Wired.position {F : Type} [FloatScalar F] {net : SimNetwork F U} (h : net.Wired) {i : ℕ}
    {w : World F U} (hw : net.worlds[i]? = some w) : net.bus.position i = some w.position := by
  obtain ⟨p, hp, -, hpos⟩ := h.participant hw
  unfold SimBus.position
  rw [hp]
  exact hpos

/-- Nothing waits for a new world. -/
theorem inbox_createWorld {F : Type} [FloatScalar F] (net : SimNetwork F U) (w : World F U)
    (k : ℕ) : (net.createWorld w).bus.inbox k = net.bus.inbox k := by
  rw [SimBus.inbox_eq, SimBus.inbox_eq]
  show (((net.bus.participants ++ [_]).map Participant.inboundBeacons)[k]?).getD [] = _
  rw [List.map_append, List.map_singleton, List.getElem?_append]
  split
  · rfl
  · next hge =>
    rw [List.getElem?_eq_none (not_lt.mp hge)]
    cases k - (net.bus.participants.map Participant.inboundBeacons).length <;> rfl

/-- Nothing waits for a world that is not there. -/
theorem inbox_of_length_le {F : Type} [FloatScalar F] {net : SimNetwork F U} (h : net.Wired) {k : ℕ}
    (hk : net.worlds.length ≤ k) : net.bus.inbox k = [] := by
  have hlen : net.bus.participants.length = net.worlds.length := by
    have hsame := congrArg List.length h
    rwa [List.length_map, List.length_map] at hsame
  unfold SimBus.inbox SimBus.drainInboxBeacons
  rw [List.getElem?_eq_none (hlen.trans_le hk)]
  rfl

/-- A poll takes everything. -/
theorem inbox_polled {F : Type} [FloatScalar F] (net : SimNetwork F U) (i k : ℕ) :
    (net.polled i).bus.inbox k = if k = i then [] else net.bus.inbox k := by
  have hmessages : (net.polled i).bus.inbox k = (net.bus.drainInboxBeacons i).2.inbox k := by
    refine SimBus.inbox_updateAll ?_ [i] k
    exact fun p => rfl
  rw [hmessages]
  unfold SimBus.inbox SimBus.drainInboxBeacons
  simp only
  rw [SimBus.update_participants]
  split
  · cases net.bus.participants[k]? <;> rfl
  · rfl

/-- **The inboxes after a tick of `BeaconSystem`**: what waited for others, and what was sent. -/
theorem mem_inbox_beaconTick {F : Type} [FloatScalar F] {net : SimNetwork F U}
    {auth : Option SignatureScheme} {i k : ℕ} {w : World F U} {sv : StateVector F}
    (h : sv ∈ (net.beaconTick auth i w).bus.inbox k) :
    (k ≠ i ∧ sv ∈ net.bus.inbox k) ∨ .beacon sv ∈ ((net.polling i w).beaconTick auth).sent := by
  have hsent : sv ∈ ((net.polled i).sendAll i
      ((net.polling i w).beaconTick auth).sent).bus.inbox k := by
    rwa [← SimBus.inbox_updateAll (f := fun p => { p with
      posFn := some ((net.polling i w).beaconTick auth).position }) (fun _ => rfl) [i]]
  rcases SimBus.mem_inbox_foldl hsent with hold | hnew
  · rw [inbox_polled] at hold
    split at hold
    · cases hold
    · next hk => exact .inl ⟨hk, hold⟩
  · exact .inr hnew

/-- What waited for others still waits. -/
theorem mem_beaconTick_of_mem {F : Type} [FloatScalar F] {net : SimNetwork F U}
    {auth : Option SignatureScheme} {i k : ℕ} {w : World F U} {sv : StateVector F} (hk : k ≠ i)
    (h : sv ∈ net.bus.inbox k) : sv ∈ (net.beaconTick auth i w).bus.inbox k := by
  have hpolled : sv ∈ (net.polled i).bus.inbox k := by
    rw [inbox_polled, if_neg hk]
    exact h
  have hsent : sv ∈ ((net.polled i).sendAll i
      ((net.polling i w).beaconTick auth).sent).bus.inbox k := SimBus.mem_foldl_of_mem hpolled
  rwa [← SimBus.inbox_updateAll (f := fun p => { p with
    posFn := some ((net.polling i w).beaconTick auth).position }) (fun _ => rfl) [i]] at hsent

/-- A rebuild files the worlds where they are. -/
theorem Wired.positions (h : net.Wired) : net.bus.positions = net.worlds.map World.position := by
  have hsnd : net.bus.positions
      = (net.bus.participants.map Participant.wiring).filterMap Prod.snd := by
    rw [List.filterMap_map]
    rfl
  rw [hsnd, h, List.filterMap_map]
  exact congrFun List.filterMap_eq_map net.worlds

/-- **Everybody in range receives the beacon**, if the grid files the worlds where they are. -/
theorem received (hreach : SimBus.Reachable range net.bus (net.worlds.map World.position))
    (hwired : net.Wired) {i k : ℕ} {w w' : World ℚ U} (hi : net.worlds[i]? = some w)
    (hk : net.worlds[k]? = some w') (hne : k ≠ i)
    (hrange : SimBus.InRange range w'.position w.position) {ps : List (Packet ℚ)}
    {sv : StateVector ℚ} (hsv : .beacon sv ∈ ps) : sv ∈ (net.sendAll i ps).bus.inbox k := by
  obtain ⟨before, after, rfl⟩ := List.append_of_mem hsv
  have hreach' := hreach.sendAll i before
  have hwired' := hwired.sendAll i before
  have hfrom : (net.sendAll i before).bus.position i = some w.position := hwired'.position hi
  have hto : (net.sendAll i before).bus.position k = some w'.position := hwired'.position hk
  have hfiled : (net.worlds.map World.position)[k]? = some w'.position := by
    rw [List.getElem?_map, hk]
    rfl
  -- in range and filed around the sender, so delivered once
  have hone := (SimBus.Bus.of_reachable hreach').count_eq_one hne hto hrange.2
    (SimBus.filedAround_of_inRange hfiled hrange)
  have hmem : k ∈ (net.sendAll i before).bus.recipients i w.position :=
    List.count_pos_iff.mp (hone ▸ Nat.one_pos)
  show sv ∈ ((before ++ .beacon sv :: after).foldl (Packet.sendOnBus i) net.bus).inbox k
  rw [List.foldl_append, List.foldl_cons]
  refine SimBus.mem_foldl_of_mem ?_
  show sv ∈ ((net.sendAll i before).bus.deliverBeacon i sv).inbox k
  unfold SimBus.deliverBeacon
  rw [hfrom]
  exact SimBus.mem_inbox_updateAll.mpr (.inr ⟨rfl, hmem, SimBus.lt_of_position hto⟩)

/-- So does everybody else in a tick of `BeaconSystem` that sends it. -/
theorem received_beaconTick {auth : Option SignatureScheme}
    (hreach : SimBus.Reachable range net.bus (net.worlds.map World.position))
    (hwired : net.Wired) {i k : ℕ} {w w' w₂ : World ℚ U} (hi : net.worlds[i]? = some w)
    (hk : net.worlds[k]? = some w') (hne : k ≠ i)
    (hrange : SimBus.InRange range w'.position w.position) {sv : StateVector ℚ}
    (hsv : .beacon sv ∈ ((net.polling i w₂).beaconTick auth).sent) :
    sv ∈ (net.beaconTick auth i w₂).bus.inbox k := by
  have hpolled : SimBus.Reachable range (net.polled i).bus
      ((net.polled i).worlds.map World.position) :=
    (hreach.drainInboxBeacons i).drainInboxMessages i
  have hsent := received hpolled (hwired.polled i) hi hk hne hrange hsv
  rwa [← SimBus.inbox_updateAll (f := fun p => { p with
    posFn := some ((net.polling i w₂).beaconTick auth).position }) (fun _ => rfl) [i]] at hsent

/-- A tick of `BeaconSystem` leaves the grid alone. -/
theorem reachable_beaconTick (h : SimBus.Reachable range net.bus filed)
    (auth : Option SignatureScheme) (i : ℕ) (w : World ℚ U) :
    SimBus.Reachable range (net.beaconTick auth i w).bus filed :=
  ((((h.drainInboxBeacons i).drainInboxMessages i).sendAll i _).setPosition i _)

end SimNetwork

end MithAtomas
