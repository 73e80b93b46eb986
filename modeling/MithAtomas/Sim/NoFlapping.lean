import MithAtomas.Comms.NeighbourTableHistory
import MithAtomas.Core.BeaconTick
import MithAtomas.Core.IdentityRotation
import MithAtomas.Framework.Heartbeat
import MithAtomas.Sim.Lockstep
import MithAtomas.Sim.SimInbox

/-!
# Neighbours in lockstep

Every two worlds of a simulation in lockstep are a link of heartbeats (`SimNetwork.link`): the
beacons of one are the beats, the neighbour table of the other is what remembers them. A tick of the
receiver is a receiver's turn, a tick of the sender a sender's turn (`Ticking.link_receiver`,
`Ticking.link_sender`), and a tick of a third world changes nothing. The two take turns in any order
in which they were created (`turn`). So with a timeout of at least one beacon period and one tick no
entry ever gets too old, and the table, which holds nobody else, evicts nothing.
-/

namespace MithAtomas

open Runs Heartbeat

variable {U : Type}

/-- Whose turn it is between receiver `a` and sender `b`, when the worlds before `next` have ticked
in the present step. -/
def turn (next a b : ℕ) : Turn :=
  if a < next then if b < next then if a < b then .receiver else .sender else .sender
  else if b < next then .receiver else if a < b then .receiver else .sender

section Turns

variable {next a b i n : ℕ}

theorem turn_receiver_before (h : b ≠ i) : turn i i b = .receiver := by
  unfold turn
  rw [if_neg (lt_irrefl i)]
  rcases Nat.lt_or_gt_of_ne h with hlt | hgt
  · rw [if_pos hlt]
  · rw [if_neg hgt.not_gt, if_pos hgt]

theorem turn_receiver_after (h : b ≠ i) : turn (i + 1) i b = .sender := by
  unfold turn
  rw [if_pos (Nat.lt_succ_self i)]
  rcases Nat.lt_or_gt_of_ne h with hlt | hgt
  · rw [if_pos (Nat.lt_succ_of_lt hlt), if_neg hlt.not_gt]
  · rw [if_neg (Nat.not_lt.mpr hgt)]

theorem turn_sender_before (h : a ≠ i) : turn i a i = .sender := by
  unfold turn
  rw [if_neg (lt_irrefl i), if_neg (lt_irrefl i)]
  rcases Nat.lt_or_gt_of_ne h with hlt | hgt
  · rw [if_pos hlt]
  · rw [if_neg hgt.not_gt, if_neg hgt.not_gt]

theorem turn_sender_after (h : a ≠ i) : turn (i + 1) a i = .receiver := by
  unfold turn
  rw [if_pos (Nat.lt_succ_self i)]
  rcases Nat.lt_or_gt_of_ne h with hlt | hgt
  · rw [if_pos (Nat.lt_succ_of_lt hlt), if_pos hlt]
  · rw [if_neg (Nat.not_lt.mpr hgt), if_pos (Nat.lt_succ_self i)]

/-- For the others nothing changes when `i` ticks. -/
theorem turn_of_ne (ha : a ≠ i) (hb : b ≠ i) : turn (i + 1) a b = turn i a b := by
  have ha' : a < i + 1 ↔ a < i := Nat.lt_succ_iff_lt_or_eq.trans (or_iff_left ha)
  have hb' : b < i + 1 ↔ b < i := Nat.lt_succ_iff_lt_or_eq.trans (or_iff_left hb)
  unfold turn
  simp only [ha', hb']

/-- In a step in which both have ticked, the later one is the last. -/
theorem turn_of_lt (ha : a < n) (hb : b < n) :
    turn n a b = if a < b then .receiver else .sender := by
  unfold turn
  rw [if_pos ha, if_pos hb]

/-- So it is when a step begins. -/
theorem turn_zero (a b : ℕ) : turn 0 a b = if a < b then .receiver else .sender := by
  unfold turn
  rw [if_neg (Nat.not_lt_zero a), if_neg (Nat.not_lt_zero b)]

end Turns

/-- The link from world `b` to world `a`. -/
def SimNetwork.link (net : SimNetwork ℚ U) (a : ℕ) (wa wb : World ℚ U) : Heartbeat.Link ℚ where
  now := wa.context.elapsedTimeS
  heard := wa.neighbourTable.lastHeard wb.identity
  timer := wb.beacon.timeSinceLastBeaconS
  waiting := decide (∃ sv ∈ net.bus.inbox a, sv.id = wb.identity)

/-- What holds of each world, with what waits for it. -/
structure Settled (auth : Option SignatureScheme) (config : LockstepConfig)
    (stations : List Station)
    (inbox : List (StateVector ℚ)) (w : World ℚ U) : Prop where
  period : w.beacon.beaconPeriodS = config.beaconPeriodS
  timer : 0 ≤ w.beacon.timeSinceLastBeaconS ∧
    w.beacon.timeSinceLastBeaconS < config.beaconPeriodS
  timeout : config.beaconPeriodS + config.deltaTimeS ≤ w.beacon.neighbourTimeoutS
  distinct : w.neighbourTable.Distinct
  /-- it has no entry of anybody but the other worlds -/
  entries : ∀ e ∈ w.neighbourTable.entries,
    e.hid ≠ w.identity ∧ ∃ st ∈ stations, st.identity = e.hid
  pins : BeaconInbox.PinsWithin (Station.Binds auth stations) w.peerKeys
  inbox : ∀ sv ∈ inbox, ∃ st ∈ stations, st.Sends auth sv

/-- **What holds in lockstep.** -/
structure LockstepInv (auth : Option SignatureScheme) (config : LockstepConfig) (s : Lockstep U) :
    Prop where
  wired : s.net.Wired
  next_le : s.next ≤ s.net.worlds.length
  ids : (s.net.stations.map Station.identity).Nodup
  signsCorrectly : ∀ st ∈ s.net.stations, st.SignsCorrectly auth
  inRange : ∀ st ∈ s.net.stations, ∀ st' ∈ s.net.stations, st.identity ≠ st'.identity →
    SimBus.InRange config.commRangeM st.position st'.position
  /-- while the worlds tick, the grid files them where they are -/
  filed : ∃ filed, SimBus.Reachable config.commRangeM s.net.bus filed ∧
    (s.next < s.net.worlds.length → filed = s.net.worlds.map World.position)
  settled : ∀ a wa, s.net.worlds[a]? = some wa →
    Settled auth config s.net.stations (s.net.bus.inbox a) wa
  links : ∀ a b wa wb, a ≠ b → s.net.worlds[a]? = some wa → s.net.worlds[b]? = some wb →
    Sound config.deltaTimeS config.beaconPeriodS (s.net.link a wa wb) (turn s.next a b)

/-- Two worlds have two ids. -/
theorem LockstepInv.identity_ne {auth : Option SignatureScheme} {config : LockstepConfig}
    {s : Lockstep U} (hI : LockstepInv auth config s) {a b : ℕ} {wa wb : World ℚ U} (hne : a ≠ b)
    (ha : s.net.worlds[a]? = some wa) (hb : s.net.worlds[b]? = some wb) :
    wa.identity ≠ wb.identity := by
  intro hsame
  have hid : ∀ {k : ℕ} {w : World ℚ U}, s.net.worlds[k]? = some w →
      (s.net.stations.map Station.identity)[k]? = some w.identity := by
    intro k w hk
    unfold SimNetwork.stations
    rw [List.getElem?_map, List.getElem?_map, hk]
    rfl
  have hlt : a < (s.net.stations.map Station.identity).length :=
    (List.getElem?_eq_some_iff.mp (hid ha)).1
  refine hne ((List.getElem?_inj hlt hI.ids).mp ?_)
  rw [hid ha, hid hb, hsame]

/-! ### A tick of a world -/

/-- World `w` is the next to tick, and `w'` is what has become of it when `BeaconSystem` is
reached. -/
structure Ticking (auth : Option SignatureScheme) (config : LockstepConfig) (s : Lockstep U)
    (w w' : World ℚ U) : Prop where
  inv : LockstepInv auth config s
  world : s.net.worlds[s.next]? = some w
  same : (w.advance config.tickRateHz).SameBeacons w'
  vouch : ∀ m ∈ (s.net.polling s.next w').rxMessages, ∀ st ∈ s.net.stations, st.Vouches auth m

namespace Ticking

variable {auth : Option SignatureScheme} {config : LockstepConfig} {s : Lockstep U}
  {w w' : World ℚ U}

theorem settled (h : Ticking auth config s w w') :
    Settled auth config s.net.stations (s.net.bus.inbox s.next) w :=
  h.inv.settled s.next w h.world

theorem identity (h : Ticking auth config s w w') : w'.identity = w.identity :=
  congrArg Station.identity h.same.station

theorem mem_stations (h : Ticking auth config s w w') : w.station ∈ s.net.stations :=
  List.mem_map_of_mem (List.mem_of_getElem? h.world)

/-- It stays who it is, and where it is. -/
theorem station_beaconTick (h : Ticking auth config s w w') :
    ((s.net.polling s.next w').beaconTick auth).station = w.station := by
  have hidentity := ShippedSystem.beacon.identity_tick auth (s.net.polling s.next w')
  have hkeypair := ShippedSystem.beacon.keypair_tick auth (s.net.polling s.next w')
  have hposition : (ShippedSystem.beacon.tick auth (s.net.polling s.next w')).position
      = w'.position :=
    ShippedSystem.beacon.tick_frame (l := .position) (s.net.polling s.next w') (by decide)
  have hstation : (ShippedSystem.beacon.tick auth (s.net.polling s.next w')).station
      = w'.station := by
    unfold World.station
    rw [hidentity, hkeypair, hposition]
    rfl
  exact hstation.trans h.same.station

/-- Its clock has gone on. -/
theorem elapsed_beaconTick (h : Ticking auth config s w w') :
    ((s.net.polling s.next w').beaconTick auth).context.elapsedTimeS
      = w.context.elapsedTimeS + config.deltaTimeS := by
  have hcontext : (ShippedSystem.beacon.tick auth (s.net.polling s.next w')).context = w'.context :=
    ShippedSystem.beacon.tick_frame (l := .context) (s.net.polling s.next w') (by decide)
  show (ShippedSystem.beacon.tick auth (s.net.polling s.next w')).context.elapsedTimeS = _
  rw [hcontext, h.same.context]
  rfl

/-- **Its timers.** -/
theorem timers_beaconTick (h : Ticking auth config s w w') :
    ((s.net.polling s.next w').beaconTick auth).beacon.timeSinceLastBeaconS
        = tickTimer config.deltaTimeS config.beaconPeriodS w.beacon.timeSinceLastBeaconS ∧
      ((s.net.polling s.next w').beaconTick auth).beacon.beaconPeriodS = w.beacon.beaconPeriodS ∧
      ((s.net.polling s.next w').beaconTick auth).beacon.neighbourTimeoutS
        = w.beacon.neighbourTimeoutS := by
  obtain ⟨htimer, hperiod, htimeout⟩ :=
    World.timers_beaconTick (w := s.net.polling s.next w') auth rfl
  have hbeacon : (s.net.polling s.next w').beacon = w.beacon := h.same.beacon
  have hdelta : (s.net.polling s.next w').context.deltaTimeS = config.deltaTimeS :=
    congrArg SwarmContext.deltaTimeS h.same.context
  rw [hbeacon] at hperiod htimeout
  refine ⟨?_, hperiod, htimeout⟩
  rw [htimer, hbeacon, hdelta]
  have hp : w.beacon.beaconPeriodS = config.beaconPeriodS := h.settled.period
  have hpos : 0 < w.beacon.beaconPeriodS := hp ▸ config.beaconPeriod_pos
  unfold tickTimer
  by_cases hdue : w.beacon.beaconPeriodS ≤ w.beacon.timeSinceLastBeaconS + config.deltaTimeS
  · rw [BeaconSystem.emit_of_due _ _ _ _ _ _ hpos hdue rfl, if_pos (hp ▸ hdue)]
  · rw [BeaconSystem.emit_of_not_due _ _ _ _ _ _ hdue, if_neg (hp ▸ hdue)]

/-- **What it sends**: a beacon of its own, if its timer says so. -/
theorem beacon_mem_sent (h : Ticking auth config s w w') {sv : StateVector ℚ}
    (hsv : .beacon sv ∈ ((s.net.polling s.next w').beaconTick auth).sent) :
    w.station.Sends auth sv := by
  have hnone : .beacon sv ∉ (s.net.polling s.next w').sent := List.not_mem_nil
  have hout := (World.mem_sent_beaconTick.mp hsv).resolve_left hnone
  have hstation : (s.net.polling s.next w').station = w.station := h.same.station
  rw [World.mem_outgoing hout, ← hstation]
  refine Station.sends_stateVector _ ?_
  rw [hstation]
  exact h.inv.signsCorrectly _ h.mem_stations

theorem exists_beacon_sent (h : Ticking auth config s w w')
    (hdue : config.beaconPeriodS ≤ w.beacon.timeSinceLastBeaconS + config.deltaTimeS) :
    ∃ sv, .beacon sv ∈ ((s.net.polling s.next w').beaconTick auth).sent := by
  have hbeacon : (s.net.polling s.next w').beacon = w.beacon := h.same.beacon
  have hdelta : (s.net.polling s.next w').context.deltaTimeS = config.deltaTimeS :=
    congrArg SwarmContext.deltaTimeS h.same.context
  have hp : w.beacon.beaconPeriodS = config.beaconPeriodS := h.settled.period
  have hpos : 0 < w.beacon.beaconPeriodS := hp ▸ config.beaconPeriod_pos
  refine ⟨(s.net.polling s.next w').stateVector.signed auth (s.net.polling s.next w').keypair,
    World.mem_sent_beaconTick.mpr (.inr ?_)⟩
  unfold World.outgoing
  rw [hbeacon, hdelta, BeaconSystem.emit_of_due _ _ _ _ _ _ hpos (hp ▸ hdue) rfl]
  exact List.mem_singleton_self _

/-- No beacon is sent before its time. -/
theorem due_of_sent (h : Ticking auth config s w w') {sv : StateVector ℚ}
    (hsv : .beacon sv ∈ ((s.net.polling s.next w').beaconTick auth).sent) :
    config.beaconPeriodS ≤ w.beacon.timeSinceLastBeaconS + config.deltaTimeS := by
  have hbeacon : (s.net.polling s.next w').beacon = w.beacon := h.same.beacon
  have hdelta : (s.net.polling s.next w').context.deltaTimeS = config.deltaTimeS :=
    congrArg SwarmContext.deltaTimeS h.same.context
  have hnone : .beacon sv ∉ (s.net.polling s.next w').sent := List.not_mem_nil
  have hout := (World.mem_sent_beaconTick.mp hsv).resolve_left hnone
  rw [← h.settled.period]
  by_contra hnot
  unfold World.outgoing at hout
  rw [hbeacon, hdelta, BeaconSystem.emit_of_not_due _ _ _ _ _ _ hnot] at hout
  cases hout

/-- What waits for it carries the keys that are bound to the ids. -/
theorem binds_iff (h : Ticking auth config s w w') {sv : StateVector ℚ}
    (hsv : sv ∈ s.net.bus.inbox s.next) (key : IdentityKey) :
    Station.Binds auth s.net.stations sv.id key ↔ key = sv.senderPubkey := by
  obtain ⟨st, hst, hsends⟩ := h.settled.inbox sv hsv
  exact hsends.binds_iff h.inv.ids hst key

/-- **What it has heard**: the aged table, with what has waited upserted, its own beacons apart. -/
theorem table_beaconTick (h : Ticking auth config s w w') :
    ((s.net.polling s.next w').beaconTick auth).neighbourTable
      = ((s.net.bus.inbox s.next).filter fun sv => sv.id ≠ w.identity).foldl
          (fun t sv => t.upsert sv (w.context.elapsedTimeS + config.deltaTimeS) none)
          (w.neighbourTable.ageOut (w.context.elapsedTimeS + config.deltaTimeS)
            w.beacon.neighbourTimeoutS) := by
  have hpins : BeaconInbox.PinsWithin (Station.Binds auth s.net.stations) w'.peerKeys := by
    rw [h.same.peerKeys]
    exact h.settled.pins
  -- the inbox holds what the stations send, and that verifies
  have hverifies : ∀ sv ∈ s.net.bus.inbox s.next, ∀ scheme, auth = some scheme →
      sv.senderPubkey.present = true → sv.verifies scheme = true := by
    intro sv hsv
    obtain ⟨st, -, hsends⟩ := h.settled.inbox sv hsv
    exact hsends.verifies
  have hpoll := (BeaconInbox.foldl_receive_vouched auth w'.identity w'.context.elapsedTimeS
    ⟨w'.neighbourTable.ageOut w'.context.elapsedTimeS w'.beacon.neighbourTimeoutS, w'.peerKeys,
      w'.beacon.rejectedBeacons⟩ hverifies (fun sv hsv => h.binds_iff hsv) hpins).1
  have helapsed : w'.context.elapsedTimeS = w.context.elapsedTimeS + config.deltaTimeS :=
    congrArg SwarmContext.elapsedTimeS h.same.context
  have htimeout : w'.beacon.neighbourTimeoutS = w.beacon.neighbourTimeoutS :=
    congrArg BeaconSystem.neighbourTimeoutS h.same.beacon
  have htable : w'.neighbourTable = w.neighbourTable := h.same.neighbourTable
  rw [World.neighbourTable_beaconTick,
    if_pos (show usable (s.net.polling s.next w').beaconTransport = true from rfl)]
  rw [← helapsed, ← htimeout, ← htable, ← h.identity]
  exact hpoll

/-- It has still no entry of anybody but the other worlds. -/
theorem entries_beaconTick (h : Ticking auth config s w w') :
    ∀ e ∈ ((s.net.polling s.next w').beaconTick auth).neighbourTable.entries,
      e.hid ≠ w.identity ∧ ∃ st ∈ s.net.stations, st.identity = e.hid := by
  intro e he
  have hpolled : e ∈ ((s.net.polling s.next w').inboxAfter auth
      (s.net.polling s.next w').rxBeacons).table.entries := by
    rwa [World.neighbourTable_beaconTick,
      if_pos (show usable (s.net.polling s.next w').beaconTransport = true from rfl)] at he
  rcases World.mem_inboxAfter_or hpolled with hold | ⟨sv, hsv, hother, rfl⟩
  · change e ∈ w'.neighbourTable.entries at hold
    rw [h.same.neighbourTable] at hold
    exact h.settled.entries e hold
  · obtain ⟨st, hst, hsends⟩ := h.settled.inbox sv hsv
    change sv.id ≠ w'.identity at hother
    rw [h.identity] at hother
    exact ⟨hother, st, hst, hsends.id.symm⟩

/-- **What it has pinned** is still true. -/
theorem pins_beaconTick (h : Ticking auth config s w w') :
    BeaconInbox.PinsWithin (Station.Binds auth s.net.stations)
      ((s.net.polling s.next w').beaconTick auth).peerKeys := by
  refine World.peerKeys_beaconTick_invariant
    (I := BeaconInbox.PinsWithin (Station.Binds auth s.net.stations)) ?_ ?_ ?_
  · intro sv hsv inbox hinbox
    exact hinbox.receive ((h.binds_iff hsv _).mpr rfl) auth
  · intro m hm hdiscovery keys hkeys
    exact Station.pinsWithin_pinAdvertised hkeys hdiscovery (h.vouch m hm)
  · show BeaconInbox.PinsWithin _ w'.peerKeys
    rw [h.same.peerKeys]
    exact h.settled.pins

/-! ### The links in a tick -/

variable {a b : ℕ} {wa wb : World ℚ U}

/-- **A tick of the receiver.** -/
theorem link_receiver (h : Ticking auth config s w w') (hb : s.net.worlds[b]? = some wb)
    (hne : b ≠ s.next) :
    (s.tick auth w').net.link s.next ((s.net.polling s.next w').beaconTick auth) wb
      = (s.net.link s.next w wb).receive config.deltaTimeS w.beacon.neighbourTimeoutS := by
  have hother : wb.identity ≠ w.identity := h.inv.identity_ne hne hb h.world
  have haged := h.settled.distinct.ageOut (w.context.elapsedTimeS + config.deltaTimeS)
    w.beacon.neighbourTimeoutS
  have hheard : ((s.net.polling s.next w').beaconTick auth).neighbourTable.lastHeard wb.identity
      = if ∃ sv ∈ s.net.bus.inbox s.next, sv.id = wb.identity
        then some (w.context.elapsedTimeS + config.deltaTimeS)
        else (w.neighbourTable.lastHeard wb.identity).filter fun heard =>
          ¬ heard < w.context.elapsedTimeS + config.deltaTimeS - w.beacon.neighbourTimeoutS := by
    rw [h.table_beaconTick, haged.lastHeard_upserts, h.settled.distinct.lastHeard_ageOut]
    refine if_congr ?_ rfl rfl
    constructor
    · rintro ⟨sv, hsv, hid⟩
      exact ⟨sv, List.mem_of_mem_filter hsv, hid⟩
    · rintro ⟨sv, hsv, hid⟩
      exact ⟨sv, List.mem_filter.mpr ⟨hsv, decide_eq_true (hid ▸ hother)⟩, hid⟩
  refine Heartbeat.Link.ext h.elapsed_beaconTick ?_ rfl ?_
  · exact hheard.trans (if_congr decide_eq_true_iff.symm rfl rfl)
  · -- its own beacons do not come back to it, and everything else has been polled
    refine decide_eq_false ?_
    rintro ⟨sv, hsv, hid⟩
    rcases SimNetwork.mem_inbox_beaconTick hsv with ⟨hself, -⟩ | hsent
    · exact hself rfl
    · exact hother (hid.symm.trans (h.beacon_mem_sent hsent).id)

/-- **A tick of the sender.** -/
theorem link_sender (h : Ticking auth config s w w') (ha : s.net.worlds[a]? = some wa)
    (hne : a ≠ s.next) :
    (s.tick auth w').net.link a wa ((s.net.polling s.next w').beaconTick auth)
      = (s.net.link a wa w).send config.deltaTimeS config.beaconPeriodS := by
  have hidentity : ((s.net.polling s.next w').beaconTick auth).identity = w.identity :=
    congrArg Station.identity h.station_beaconTick
  refine Heartbeat.Link.ext rfl ?_ h.timers_beaconTick.1 ?_
  · exact congrArg wa.neighbourTable.lastHeard hidentity
  · show decide (∃ sv ∈ (s.net.beaconTick auth s.next w').bus.inbox a, sv.id
        = ((s.net.polling s.next w').beaconTick auth).identity)
      = (decide (∃ sv ∈ s.net.bus.inbox a, sv.id = w.identity) || decide (config.beaconPeriodS
        ≤ w.beacon.timeSinceLastBeaconS + config.deltaTimeS))
    rw [hidentity, ← Bool.decide_or]
    refine decide_eq_decide.mpr ⟨?_, ?_⟩
    · rintro ⟨sv, hsv, hid⟩
      rcases SimNetwork.mem_inbox_beaconTick hsv with ⟨-, hold⟩ | hsent
      · exact .inl ⟨sv, hold, hid⟩
      · exact .inr (h.due_of_sent hsent)
    · rintro (⟨sv, hold, hid⟩ | hdue)
      · exact ⟨sv, SimNetwork.mem_beaconTick_of_mem hne hold, hid⟩
      · -- the beacon that is due reaches the receiver
        obtain ⟨sv, hsent⟩ := h.exists_beacon_sent hdue
        obtain ⟨filed, hreach, hfiled⟩ := h.inv.filed
        obtain rfl := hfiled (List.getElem?_eq_some_iff.mp h.world).1
        have hrange := h.inv.inRange wa.station (List.mem_map_of_mem (List.mem_of_getElem? ha))
          w.station h.mem_stations (h.inv.identity_ne hne ha h.world)
        exact ⟨sv, SimNetwork.received_beaconTick hreach h.inv.wired h.world ha hne hrange hsent,
          (h.beacon_mem_sent hsent).id⟩

/-- **A tick of a third world.** -/
theorem link_other (h : Ticking auth config s w w') (hb : s.net.worlds[b]? = some wb)
    (ha : a ≠ s.next) (hne : b ≠ s.next) :
    (s.tick auth w').net.link a wa wb = s.net.link a wa wb := by
  refine Heartbeat.Link.ext rfl rfl rfl (decide_eq_decide.mpr ⟨?_, ?_⟩)
  · rintro ⟨sv, hsv, hid⟩
    rcases SimNetwork.mem_inbox_beaconTick hsv with ⟨-, hold⟩ | hsent
    · exact ⟨sv, hold, hid⟩
    · -- a beacon of the world that ticks is not one of the sender's
      have hother := h.inv.identity_ne hne hb h.world
      exact absurd (hid.symm.trans (h.beacon_mem_sent hsent).id) hother
  · rintro ⟨sv, hold, hid⟩
    exact ⟨sv, SimNetwork.mem_beaconTick_of_mem ha hold, hid⟩

end Ticking

/-! ### The events -/

/-- A list with one world replaced. -/
theorem getElem?_set_cases {worlds : List (World ℚ U)} {i k : ℕ} {w' wk : World ℚ U}
    (h : (worlds.set i w')[k]? = some wk) :
    (k = i ∧ wk = w') ∨ (k ≠ i ∧ worlds[k]? = some wk) := by
  rw [List.getElem?_set] at h
  split at h
  · next hk =>
    split at h
    · exact .inl ⟨hk.symm, (Option.some.inj h).symm⟩
    · cases h
  · next hk => exact .inr ⟨Ne.symm hk, h⟩

theorem map_station_set {worlds : List (World ℚ U)} {i : ℕ} {w w' : World ℚ U}
    (hw : worlds[i]? = some w) (hstation : w'.station = w.station) :
    (worlds.set i w').map World.station = worlds.map World.station := by
  obtain ⟨hlt, rfl⟩ := List.getElem?_eq_some_iff.mp hw
  have hlt' : i < (worlds.map World.station).length := by rwa [List.length_map]
  have hget : (worlds.map World.station)[i] = worlds[i].station := List.getElem_map ..
  rw [List.map_set, hstation, ← hget, List.set_getElem_self]

theorem stations_createWorld (net : SimNetwork ℚ U) (w : World ℚ U) :
    (net.createWorld w).stations = net.stations ++ [w.station] :=
  List.map_append

theorem mem_stations_createWorld {net : SimNetwork ℚ U} {w : World ℚ U} {st : Station} :
    st ∈ (net.createWorld w).stations ↔ st ∈ net.stations ∨ st = w.station := by
  rw [stations_createWorld, List.mem_append, List.mem_singleton]

theorem map_position_eq (worlds : List (World ℚ U)) :
    worlds.map World.position = (worlds.map World.station).map Station.position := by
  rw [List.map_map]
  rfl

section Events

variable {auth : Option SignatureScheme} {config : LockstepConfig} {s s' : Lockstep U}
  {e : LockstepEvent U} {w w' : World ℚ U} {inbox : List (StateVector ℚ)}

/-- What waits in an inbox after a tick has been sent by one of the worlds. -/
theorem Ticking.inbox_tick (h : Ticking auth config s w w') {k : ℕ} {wk : World ℚ U}
    (hk : s.net.worlds[k]? = some wk) {sv : StateVector ℚ}
    (hsv : sv ∈ (s.net.beaconTick auth s.next w').bus.inbox k) :
    ∃ st ∈ s.net.stations, st.Sends auth sv := by
  rcases SimNetwork.mem_inbox_beaconTick hsv with ⟨-, hold⟩ | hsent
  · exact (h.inv.settled k wk hk).inbox sv hold
  · exact ⟨w.station, h.mem_stations, h.beacon_mem_sent hsent⟩

/-- The world that has ticked. -/
theorem Ticking.settled_tick (h : Ticking auth config s w w') :
    Settled auth config s.net.stations ((s.net.beaconTick auth s.next w').bus.inbox s.next)
      ((s.net.polling s.next w').beaconTick auth) := by
  obtain ⟨htimer, hperiod, htimeout⟩ := h.timers_beaconTick
  have hs := h.settled
  refine ⟨hperiod.trans hs.period, ?_, htimeout ▸ hs.timeout, ?_, ?_, h.pins_beaconTick,
    fun sv hsv => h.inbox_tick h.world hsv⟩
  · rw [htimer]
    exact tickTimer_lt config.deltaTime_nonneg config.beaconPeriod_pos hs.timer.1
  · rw [h.table_beaconTick]
    exact NeighbourTable.distinct_upserts (hs.distinct.ageOut _ _) _ _
  · rw [show ((s.net.polling s.next w').beaconTick auth).identity = w.identity from
      congrArg Station.identity h.station_beaconTick]
    exact h.entries_beaconTick

/-- The links after a tick: one of the two worlds has ticked, or neither. -/
theorem Ticking.links_tick (h : Ticking auth config s w w') {a b : ℕ} {wa wb : World ℚ U}
    (hab : a ≠ b) (ha : (s.tick auth w').net.worlds[a]? = some wa)
    (hb : (s.tick auth w').net.worlds[b]? = some wb) :
    Sound config.deltaTimeS config.beaconPeriodS ((s.tick auth w').net.link a wa wb)
      (turn (s.next + 1) a b) := by
  have hI := h.inv
  rcases getElem?_set_cases ha with ⟨rfl, rfl⟩ | ⟨hane, haold⟩ <;>
    rcases getElem?_set_cases hb with ⟨rfl, rfl⟩ | ⟨hbne, hbold⟩
  · exact absurd rfl hab
  · -- the receiver's turn
    have hsound := hI.links s.next b w wb hab h.world hbold
    rw [turn_receiver_before hbne] at hsound
    rw [h.link_receiver hbold hbne, turn_receiver_after hbne]
    exact hsound.receive (hI.settled b wb hbold).timer.1 _
  · -- the sender's turn
    have hsound := hI.links a s.next wa w hab haold h.world
    rw [turn_sender_before hane] at hsound
    rw [h.link_sender haold hane, turn_sender_after hane]
    exact hsound.send h.settled.timer.2
  · have hsound := hI.links a b wa wb hab haold hbold
    rw [h.link_other hbold hane hbne, turn_of_ne hane hbne]
    exact hsound

/-- **A tick keeps the invariant.** -/
theorem Ticking.inv_tick (h : Ticking auth config s w w') :
    LockstepInv auth config (s.tick auth w') := by
  have hI := h.inv
  have hlt := (List.getElem?_eq_some_iff.mp h.world).1
  have hstations : (s.tick auth w').net.stations = s.net.stations :=
    map_station_set h.world h.station_beaconTick
  exact
    { wired := ((hI.wired.polled s.next).sendAll s.next _).setWorld h.world
        (congrArg Station.identity h.station_beaconTick)
      next_le := hlt.trans_le (List.length_set ..).ge
      ids := hstations ▸ hI.ids
      signsCorrectly := hstations ▸ hI.signsCorrectly
      inRange := hstations ▸ hI.inRange
      filed := by
        -- nobody moves in a tick, so the grid stays right
        obtain ⟨filed, hreach, hfiled⟩ := hI.filed
        refine ⟨filed, SimNetwork.reachable_beaconTick hreach auth s.next w', fun _ => ?_⟩
        rw [hfiled hlt, map_position_eq, map_position_eq]
        exact congrArg _ hstations.symm
      settled := by
        intro a wa ha
        rw [hstations]
        rcases getElem?_set_cases ha with ⟨rfl, rfl⟩ | ⟨hne, hold⟩
        · exact h.settled_tick
        · have hs := hI.settled a wa hold
          exact ⟨hs.period, hs.timer, hs.timeout, hs.distinct, hs.entries, hs.pins,
            fun sv hsv => h.inbox_tick hold hsv⟩
      links := fun a b wa wb hab ha hb => h.links_tick hab ha hb }

/-- What another system does to a world, and to the order in an inbox, does not matter. -/
theorem Settled.congr {stations : List Station} {inbox inbox' : List (StateVector ℚ)}
    (h : Settled auth config stations inbox w) (hsame : w.SameBeacons w')
    (hinbox : ∀ sv, sv ∈ inbox' ↔ sv ∈ inbox) : Settled auth config stations inbox' w' where
  period := by
    rw [hsame.beacon]
    exact h.period
  timer := by
    rw [hsame.beacon]
    exact h.timer
  timeout := by
    rw [hsame.beacon]
    exact h.timeout
  distinct := by
    rw [hsame.neighbourTable]
    exact h.distinct
  entries := by
    have hidentity : w'.identity = w.identity := congrArg Station.identity hsame.station
    rw [hsame.neighbourTable, hidentity]
    exact h.entries
  pins := by
    rw [hsame.peerKeys]
    exact h.pins
  inbox := fun sv hsv => h.inbox sv ((hinbox sv).mp hsv)

/-- **An event that is not `BeaconSystem`'s** keeps the invariant. -/
theorem LockstepInv.of_same (hI : LockstepInv auth config s) (hwired : s'.net.Wired)
    (hstations : s'.net.stations = s.net.stations)
    (hworlds : ∀ (a : ℕ) (wa' : World ℚ U), s'.net.worlds[a]? = some wa' →
      ∃ wa, s.net.worlds[a]? = some wa ∧ wa.SameBeacons wa')
    (hinbox : ∀ k sv, sv ∈ s'.net.bus.inbox k ↔ sv ∈ s.net.bus.inbox k)
    (hnext : s'.next ≤ s'.net.worlds.length)
    (hturn : ∀ a b, a < s.net.worlds.length → b < s.net.worlds.length →
      turn s'.next a b = turn s.next a b)
    (hfiled : ∃ filed, SimBus.Reachable config.commRangeM s'.net.bus filed ∧
      (s'.next < s'.net.worlds.length → filed = s'.net.worlds.map World.position)) :
    LockstepInv auth config s' where
  wired := hwired
  next_le := hnext
  ids := by
    rw [hstations]
    exact hI.ids
  signsCorrectly := by
    rw [hstations]
    exact hI.signsCorrectly
  inRange := by
    rw [hstations]
    exact hI.inRange
  filed := hfiled
  settled := by
    intro a wa' ha'
    obtain ⟨wa, ha, hsame⟩ := hworlds a wa' ha'
    rw [hstations]
    exact (hI.settled a wa ha).congr hsame (hinbox a)
  links := by
    -- a link is a matter of two worlds' beacon states, and of an inbox
    intro a b wa' wb' hab ha' hb'
    obtain ⟨wa, ha, hsamea⟩ := hworlds a wa' ha'
    obtain ⟨wb, hb, hsameb⟩ := hworlds b wb' hb'
    have hidentity : wb'.identity = wb.identity := congrArg Station.identity hsameb.station
    have hlink : s'.net.link a wa' wb' = s.net.link a wa wb := by
      refine Heartbeat.Link.ext ?_ ?_ ?_ ?_
      · exact congrArg SwarmContext.elapsedTimeS hsamea.context
      · show wa'.neighbourTable.lastHeard wb'.identity = wa.neighbourTable.lastHeard wb.identity
        rw [hsamea.neighbourTable, hidentity]
      · exact congrArg BeaconSystem.timeSinceLastBeaconS hsameb.beacon
      · refine decide_eq_decide.mpr (exists_congr fun sv => ?_)
        rw [hinbox, hidentity]
    rw [hlink, hturn a b (List.getElem?_eq_some_iff.mp ha).1 (List.getElem?_eq_some_iff.mp hb).1]
    exact hI.links a b wa wb hab ha hb

theorem LockstepInv.beginStep (hI : LockstepInv auth config s)
    (hbetween : s.next = s.net.worlds.length) :
    LockstepInv auth config ⟨s.net.rebuildGrid, 0⟩ := by
  refine hI.of_same hI.wired rfl (fun a wa ha => ⟨wa, ha, .refl wa⟩) (fun _ _ => Iff.rfl)
    (Nat.zero_le _) (fun a b ha hb => ?_) ?_
  · rw [turn_zero, turn_of_lt (hbetween ▸ ha) (hbetween ▸ hb)]
  · -- the grid is built from where the worlds are
    obtain ⟨filed, hreach, -⟩ := hI.filed
    exact ⟨s.net.bus.positions, hreach.rebuildGrid, fun _ => hI.wired.positions⟩

theorem LockstepInv.send (hI : LockstepInv auth config s) (i : ℕ) (m : Message ℚ) :
    LockstepInv auth config ⟨s.net.sendAll i [.message m], s.next⟩ := by
  refine hI.of_same (hI.wired.sendAll i _) rfl (fun a wa ha => ⟨wa, ha, .refl wa⟩) (fun k sv => ?_)
    hI.next_le (fun _ _ _ _ => rfl) ?_
  · constructor
    · intro hsv
      refine (SimBus.mem_inbox_foldl hsv).resolve_right fun hmem => ?_
      cases List.mem_singleton.mp hmem
    · exact SimBus.mem_foldl_of_mem
  · obtain ⟨filed, hreach, hfiled⟩ := hI.filed
    exact ⟨filed, hreach.sendAll i _, hfiled⟩

theorem LockstepInv.other (hI : LockstepInv auth config s) {i : ℕ}
    (hw : s.net.worlds[i]? = some w) (hsame : w.SameBeacons w') :
    LockstepInv auth config ⟨s.net.setWorld i w', s.next⟩ := by
  have hlen : (s.net.setWorld i w').worlds.length = s.net.worlds.length := List.length_set ..
  have hstations : (s.net.setWorld i w').stations = s.net.stations :=
    map_station_set hw hsame.station
  refine hI.of_same (hI.wired.setWorld hw (congrArg Station.identity hsame.station)) hstations
    (fun a wa' ha' => ?_) (fun k sv => ?_) (hlen ▸ hI.next_le) (fun _ _ _ _ => rfl) ?_
  · rcases getElem?_set_cases ha' with ⟨rfl, rfl⟩ | ⟨-, hold⟩
    · exact ⟨w, hw, hsame⟩
    · exact ⟨wa', hold, .refl wa'⟩
  · rw [← SimBus.inbox_updateAll (b := s.net.bus) (f := fun p => { p with
      posFn := some w'.position }) (fun _ => rfl) [i]]
    rfl
  · obtain ⟨filed, hreach, hfiled⟩ := hI.filed
    refine ⟨filed, hreach.setPosition i _, fun hlt => ?_⟩
    rw [hfiled (hlen ▸ hlt), map_position_eq, map_position_eq]
    exact congrArg _ hstations.symm

/-- A list with one world more. -/
theorem getElem?_concat_cases {worlds : List (World ℚ U)} {k : ℕ} {wk : World ℚ U}
    (h : (worlds ++ [w])[k]? = some wk) :
    (k < worlds.length ∧ worlds[k]? = some wk) ∨ (k = worlds.length ∧ wk = w) := by
  rw [List.getElem?_append] at h
  split at h
  · next hlt => exact .inl ⟨hlt, h⟩
  · next hge =>
    obtain ⟨hzero, hsame⟩ := List.getElem?_eq_some_iff.mp h
    rw [List.length_singleton, Nat.lt_one_iff] at hzero
    simp only [hzero] at hsame
    exact .inr ⟨Nat.le_antisymm (Nat.sub_eq_zero_iff_le.mp hzero) (not_lt.mp hge), hsame.symm⟩

/-- What held of a world still holds when there is one world more. -/
theorem Settled.createWorld (h : Settled auth config s.net.stations inbox w')
    (hmem : w' ∈ s.net.worlds) (hnew : Newcomer auth config s.net w) :
    Settled auth config (s.net.createWorld w).stations inbox w' where
  period := h.period
  timer := h.timer
  timeout := h.timeout
  distinct := h.distinct
  entries := by
    intro e he
    obtain ⟨hother, st, hst, hid⟩ := h.entries e he
    exact ⟨hother, st, mem_stations_createWorld.mpr (.inl hst), hid⟩
  pins := by
    intro hid key hkey st hst hsame
    rcases mem_stations_createWorld.mp hst with hold | rfl
    · exact h.pins hid key hkey st hold hsame
    · -- nobody knows the new id
      have hnone := hnew.unpinned w' hmem
      rw [← hsame] at hkey
      cases hnone.symm.trans hkey
  inbox := by
    intro sv hsv
    obtain ⟨st, hst, hsends⟩ := h.inbox sv hsv
    exact ⟨st, mem_stations_createWorld.mpr (.inl hst), hsends⟩

/-- And this is what holds of the new one. -/
theorem Newcomer.settled (hnew : Newcomer auth config s.net w) (stations : List Station) :
    Settled auth config stations [] w where
  period := hnew.period
  timer := by
    rw [hnew.timer]
    exact ⟨le_rfl, config.beaconPeriod_pos⟩
  timeout := hnew.timeout
  distinct := by
    unfold NeighbourTable.Distinct
    rw [hnew.entries]
    exact List.nodup_nil
  entries := by
    rw [hnew.entries]
    rintro e ⟨⟩
  pins := by
    rw [hnew.peerKeys]
    rintro hid key ⟨⟩
  inbox := by rintro sv ⟨⟩

/-- A world that has not heard of another. -/
theorem sound_of_unheard {net : SimNetwork ℚ U} {a : ℕ} {wa wb : World ℚ U}
    (h : ∀ e ∈ wa.neighbourTable.entries, e.hid ≠ wb.identity) (t : Heartbeat.Turn) :
    Sound config.deltaTimeS config.beaconPeriodS (net.link a wa wb) t := by
  refine Sound.of_none ?_ _
  show (wa.neighbourTable.find wb.identity).map Entry.lastSeenS = none
  rw [NeighbourTable.find_eq_none_iff.mpr, Option.map_none]
  rintro ⟨e, he, hid⟩
  exact h e he hid

/-- The links when there is one world more, which nobody has heard of. -/
theorem LockstepInv.links_createWorld (hI : LockstepInv auth config s)
    (hbetween : s.next = s.net.worlds.length) (hnew : Newcomer auth config s.net w)
    (hfresh : ∀ st ∈ s.net.stations, st.identity ≠ w.identity) {a b : ℕ} {wa wb : World ℚ U}
    (hab : a ≠ b) (ha : (s.net.createWorld w).worlds[a]? = some wa)
    (hb : (s.net.createWorld w).worlds[b]? = some wb) :
    Sound config.deltaTimeS config.beaconPeriodS ((s.net.createWorld w).link a wa wb)
      (turn (s.next + 1) a b) := by
  rcases getElem?_concat_cases ha with ⟨halt, haold⟩ | ⟨rfl, rfl⟩
  · rcases getElem?_concat_cases hb with ⟨hblt, hbold⟩ | ⟨rfl, rfl⟩
    · have hsound := hI.links a b wa wb hab haold hbold
      have hlink : (s.net.createWorld w).link a wa wb = s.net.link a wa wb := by
        unfold SimNetwork.link
        rw [SimNetwork.inbox_createWorld]
      rw [hlink, turn_of_lt (by omega) (by omega)]
      rwa [turn_of_lt (hbetween ▸ halt) (hbetween ▸ hblt)] at hsound
    · refine sound_of_unheard (fun e he hid => ?_) _
      obtain ⟨-, st, hst, hsame⟩ := (hI.settled a wa haold).entries e he
      exact hfresh st hst (hsame.trans hid)
  · -- and it has heard of nobody
    refine sound_of_unheard (fun e he => ?_) _
    rw [hnew.entries] at he
    cases he

/-- **A new world.** -/
theorem LockstepInv.createWorld (hI : LockstepInv auth config s)
    (hbetween : s.next = s.net.worlds.length) (hnew : Newcomer auth config s.net w) :
    LockstepInv auth config ⟨s.net.createWorld w, s.next + 1⟩ := by
  have hfresh : ∀ st ∈ s.net.stations, st.identity ≠ w.identity := by
    intro st hst
    obtain ⟨w', hw', rfl⟩ := List.mem_map.mp hst
    exact hnew.fresh w' hw'
  have hnear : ∀ st ∈ s.net.stations, SimBus.InRange config.commRangeM st.position w.position := by
    intro st hst
    obtain ⟨w', hw', rfl⟩ := List.mem_map.mp hst
    exact hnew.inRange w' hw'
  have hlen : (s.net.createWorld w).worlds.length = s.net.worlds.length + 1 :=
    List.length_append.trans rfl
  exact
    { wired := hI.wired.createWorld w
      next_le := (Nat.succ_le_succ hI.next_le).trans hlen.ge
      ids := by
        show ((s.net.createWorld w).stations.map Station.identity).Nodup
        rw [stations_createWorld, List.map_append]
        refine List.Nodup.append hI.ids (List.nodup_singleton _) (List.disjoint_singleton.mpr ?_)
        intro hmem
        obtain ⟨st, hst, hid⟩ := List.mem_map.mp hmem
        exact hfresh st hst hid
      signsCorrectly := by
        intro st hst
        rcases mem_stations_createWorld.mp hst with hold | rfl
        · exact hI.signsCorrectly st hold
        · exact hnew.signsCorrectly
      inRange := by
        intro st hst st' hst' hne
        rcases mem_stations_createWorld.mp hst with hold | rfl <;>
          rcases mem_stations_createWorld.mp hst' with hold' | rfl
        · exact hI.inRange st hold st' hold' hne
        · exact hnear st hold
        · refine ⟨(hnear st' hold').1, ?_⟩
          rw [PositionComponent.distSq_comm]
          exact (hnear st' hold').2
        · exact absurd rfl hne
      filed := by
        -- between two steps the grid need not be right
        obtain ⟨filed, hreach, -⟩ := hI.filed
        refine ⟨filed, hreach.createWorld _ _, fun hlt => ?_⟩
        exact absurd hlt (not_lt.mpr (hlen.le.trans (Nat.succ_le_succ hbetween.ge)))
      settled := by
        intro a wa ha
        show Settled _ _ _ ((s.net.createWorld w).bus.inbox a) wa
        rw [SimNetwork.inbox_createWorld]
        rcases getElem?_concat_cases ha with ⟨-, hold⟩ | ⟨rfl, rfl⟩
        · exact (hI.settled a wa hold).createWorld (List.mem_of_getElem? hold) hnew
        · rw [SimNetwork.inbox_of_length_le hI.wired le_rfl]
          exact hnew.settled _
      links := fun a b wa wb hab ha hb => hI.links_createWorld hbetween hnew hfresh hab ha hb }

/-- **Every event.** -/
theorem LockstepInv.step (hI : LockstepInv auth config s) (hst : LockstepStep auth config s e s') :
    LockstepInv auth config s' := by
  cases hst with
  | createWorld w hbetween hnew => exact hI.createWorld hbetween hnew
  | beginStep hbetween => exact hI.beginStep hbetween
  | tick w w' hw hsame hvouch => exact Ticking.inv_tick ⟨hI, hw, hsame, hvouch⟩
  | send i m => exact hI.send i m
  | other i w w' hw hsame => exact hI.other hw hsame

theorem LockstepInv.init (auth : Option SignatureScheme) (config : LockstepConfig) :
    LockstepInv auth config (Lockstep.init config : Lockstep U) where
  wired := rfl
  next_le := le_rfl
  ids := List.nodup_nil
  signsCorrectly := by rintro st ⟨⟩
  inRange := by rintro st ⟨⟩
  filed := ⟨[], .init, fun _ => rfl⟩
  settled := by rintro a wa ⟨⟩
  links := by rintro a b wa wb - ⟨⟩

/-! ### What is kept -/

/-- From `w` to `w'` the table has lost nobody. -/
structure LosesNobody (w w' : World ℚ U) : Prop where
  totalEvictions : w'.neighbourTable.totalEvictions = w.neighbourTable.totalEvictions
  find : ∀ hid, (w.neighbourTable.find hid).isSome → (w'.neighbourTable.find hid).isSome

omit auth config s s' e in
theorem LosesNobody.of_eq (h : w'.neighbourTable = w.neighbourTable) : LosesNobody w w' :=
  ⟨congrArg NeighbourTable.totalEvictions h, fun _ hsome => h ▸ hsome⟩

/-- **No entry is too old** when the table ages. -/
theorem Ticking.recent (h : Ticking auth config s w w') {entry : Entry ℚ}
    (hentry : entry ∈ w.neighbourTable.entries) : ¬ entry.lastSeenS
      < w.context.elapsedTimeS + config.deltaTimeS - w.beacon.neighbourTimeoutS := by
  obtain ⟨hother, st, hst, hid⟩ := h.settled.entries entry hentry
  obtain ⟨wb, hmem, rfl⟩ := List.mem_map.mp hst
  obtain ⟨b, hb⟩ := List.mem_iff_getElem?.mp hmem
  have hne : b ≠ s.next := by
    rintro rfl
    obtain rfl := Option.some.inj (h.world.symm.trans hb)
    exact hother hid.symm
  have hsound := h.inv.links s.next b w wb (Ne.symm hne) h.world hb
  rw [turn_receiver_before hne] at hsound
  have hheard : w.neighbourTable.lastHeard wb.identity = some entry.lastSeenS := by
    have hfind : w.neighbourTable.find wb.identity = some entry :=
      h.settled.distinct.find_iff.mpr ⟨hentry, hid.symm⟩
    unfold NeighbourTable.lastHeard
    rw [hfind]
    rfl
  exact hsound.recent config.deltaTime_nonneg (h.inv.settled b wb hb).timer.2 h.settled.timeout
    hheard

/-- **A tick loses nobody.** -/
theorem Ticking.losesNobody (h : Ticking auth config s w w') :
    LosesNobody w ((s.net.polling s.next w').beaconTick auth) := by
  have htable := h.table_beaconTick
  rw [NeighbourTable.ageOut_eq_self fun entry hentry => h.recent hentry] at htable
  refine ⟨?_, fun hid hsome => ?_⟩
  · rw [htable, NeighbourTable.totalEvictions_upserts]
  · have hheard : (w.neighbourTable.lastHeard hid).isSome := by
      rwa [NeighbourTable.lastHeard, Option.isSome_map]
    have hheard' : (((s.net.polling s.next w').beaconTick auth).neighbourTable.lastHeard
        hid).isSome := by
      rw [htable, h.settled.distinct.lastHeard_upserts]
      split
      · rfl
      · exact hheard
    rwa [NeighbourTable.lastHeard, Option.isSome_map] at hheard'

/-- **Every event.** -/
theorem LockstepInv.losesNobody (hI : LockstepInv auth config s)
    (hst : LockstepStep auth config s e s') {a : ℕ} (ha : s.net.worlds[a]? = some w) :
    ∃ w', s'.net.worlds[a]? = some w' ∧ LosesNobody w w' := by
  have hlt := (List.getElem?_eq_some_iff.mp ha).1
  -- one world is replaced, the others stay
  have hreplaced : ∀ {i : ℕ} {w₀ w₁ : World ℚ U}, s.net.worlds[i]? = some w₀ →
      LosesNobody w₀ w₁ → ∃ w', (s.net.worlds.set i w₁)[a]? = some w' ∧ LosesNobody w w' := by
    intro i w₀ w₁ hi hloses
    rw [List.getElem?_set]
    by_cases hia : i = a
    · subst hia
      obtain rfl := Option.some.inj (ha.symm.trans hi)
      rw [if_pos rfl, if_pos hlt]
      exact ⟨w₁, rfl, hloses⟩
    · rw [if_neg hia]
      exact ⟨w, ha, .of_eq rfl⟩
  cases hst with
  | createWorld wNew hbetween hnew =>
    refine ⟨w, ?_, .of_eq rfl⟩
    show (s.net.worlds ++ [wNew])[a]? = some w
    rw [List.getElem?_append_left hlt]
    exact ha
  | beginStep hbetween => exact ⟨w, ha, .of_eq rfl⟩
  | tick w₀ w' hw hsame hvouch => exact hreplaced hw (Ticking.losesNobody ⟨hI, hw, hsame, hvouch⟩)
  | send i m => exact ⟨w, ha, .of_eq rfl⟩
  | other i w₀ w' hw hsame => exact hreplaced hw (.of_eq hsame.neighbourTable)

end Events

/-- **No flapping.** From any point of a run on, a world's eviction counter stays where it is, and
whoever is in its table stays there. -/
theorem no_flapping {auth : Option SignatureScheme} {config : LockstepConfig}
    {ls ls' : List (LockstepEvent U)} {s s' : Lockstep U}
    (hrun : Run (LockstepStep auth config) (Lockstep.init config) ls s)
    (hrun' : Run (LockstepStep auth config) s ls' s') {a : ℕ} {wa : World ℚ U}
    (ha : s.net.worlds[a]? = some wa) :
    ∃ wa', s'.net.worlds[a]? = some wa' ∧
      wa'.neighbourTable.totalEvictions = wa.neighbourTable.totalEvictions ∧
      ∀ (b : ℕ) (wb : World ℚ U), s.net.worlds[b]? = some wb →
        (wa.neighbourTable.find wb.identity).isSome →
        (wa'.neighbourTable.find wb.identity).isSome := by
  have hI : LockstepInv auth config s :=
    hrun.invariant (fun _ _ _ hI hst => hI.step hst) (LockstepInv.init auth config)
  have hkept : LockstepInv auth config s' ∧
      ∃ wa', s'.net.worlds[a]? = some wa' ∧ LosesNobody wa wa' := by
    refine hrun'.invariant (I := fun s' => LockstepInv auth config s' ∧
      ∃ wa', s'.net.worlds[a]? = some wa' ∧ LosesNobody wa wa') ?_ ⟨hI, wa, ha, .of_eq rfl⟩
    rintro s₁ l s₂ ⟨hI₁, w₁, hw₁, hloses₁⟩ hst
    obtain ⟨w₂, hw₂, hloses₂⟩ := hI₁.losesNobody hst hw₁
    exact ⟨hI₁.step hst, w₂, hw₂, hloses₂.totalEvictions.trans hloses₁.totalEvictions,
      fun hid hsome => hloses₂.find hid (hloses₁.find hid hsome)⟩
  obtain ⟨-, wa', ha', hloses⟩ := hkept
  exact ⟨wa', ha', hloses.totalEvictions, fun b wb _ => hloses.find wb.identity⟩

/-! ### Two worlds -/

/-- Ten ticks a second, and a beacon in each of them. -/
def pairConfig : LockstepConfig where
  commRangeM := 10
  tickRateHz := 10
  beaconPeriodS := 1 / 10
  tickRate_pos := by norm_num
  beaconPeriod_pos := by norm_num

def pairWorld (i : UInt8) : World ℚ Unit :=
  .init { WorldConfig.default with tickRateHz := 10 } ⟨1, ⟨Vector.replicate 16 (i + 1)⟩⟩ none []
    (some ⟨true⟩) (some ⟨true⟩) ()

/-- The first step begins. -/
def pairBegun : Lockstep Unit :=
  ⟨(((SimNetwork.init 10).createWorld (pairWorld 0)).createWorld (pairWorld 1)).rebuildGrid, 0⟩

/-- The next world ticks, and has no system but `BeaconSystem`. -/
def pairTick (s : Lockstep Unit) : Lockstep Unit :=
  match s.net.worlds[s.next]? with
  | some w => s.tick none (w.advance 10)
  | none => s

theorem pairTick_step {s : Lockstep Unit} (h : s.net.worlds[s.next]?.isSome) :
    LockstepStep none pairConfig s .tick (pairTick s) := by
  obtain ⟨w, hw⟩ := Option.isSome_iff_exists.mp h
  unfold pairTick
  rw [hw]
  refine LockstepStep.tick s w _ hw (.refl _) ?_
  rintro m - st - ⟨⟩

theorem pairWorld_newcomer {net : SimNetwork ℚ Unit} {i : UInt8}
    (hfresh : ∀ w' ∈ net.worlds, w'.identity ≠ (pairWorld i).identity)
    (hunpinned : ∀ w' ∈ net.worlds, w'.peerKeys.find (pairWorld i).identity = none)
    (hposition : ∀ w' ∈ net.worlds, w'.position = (pairWorld i).position) :
    Newcomer none pairConfig net (pairWorld i) where
  entries := rfl
  peerKeys := rfl
  timer := rfl
  period := by norm_num [pairWorld, World.init, WorldConfig.default, pairConfig]
  timeout := by
    norm_num [pairWorld, World.init, WorldConfig.default, pairConfig, LockstepConfig.deltaTimeS]
  signsCorrectly := by rintro scheme kp ⟨⟩
  fresh := hfresh
  unpinned := hunpinned
  inRange := by
    intro w' hw'
    rw [hposition w' hw']
    norm_num [SimBus.InRange, PositionComponent.distSq, pairConfig]

/-- The first world has been created, and then the second. -/
theorem pairBegun_run :
    ∃ ls, Run (LockstepStep none pairConfig) (.init pairConfig) ls pairBegun := by
  have hfirst : LockstepStep none pairConfig (.init pairConfig) (.createWorld (pairWorld 0))
      ⟨(SimNetwork.init 10).createWorld (pairWorld 0), 1⟩ :=
    LockstepStep.createWorld _ _ rfl (pairWorld_newcomer (by rintro w' ⟨⟩) (by rintro w' ⟨⟩)
      (by rintro w' ⟨⟩))
  have hsecond : LockstepStep none pairConfig
      ⟨(SimNetwork.init 10).createWorld (pairWorld 0), 1⟩ (.createWorld (pairWorld 1))
      ⟨((SimNetwork.init 10).createWorld (pairWorld 0)).createWorld (pairWorld 1), 2⟩ := by
    refine LockstepStep.createWorld _ _ rfl (pairWorld_newcomer ?_ ?_ ?_) <;>
    · intro w' hw'
      rw [List.mem_singleton.mp hw']
      decide
  exact ⟨_, ((Run.single hfirst).snoc hsecond).snoc (LockstepStep.beginStep _ rfl)⟩

/-- Both have ticked, the second after the first. -/
def pairHeard : Lockstep Unit :=
  pairTick (pairTick pairBegun)

/-- In its first tick the second world hears the first, and another step later it still has it. -/
theorem pair_keeps_neighbour : ∃ (ls ls' : List (LockstepEvent Unit)) (s' : Lockstep Unit)
    (wa' : World ℚ Unit), Run (LockstepStep none pairConfig) (.init pairConfig) ls pairHeard ∧
      Run (LockstepStep none pairConfig) pairHeard ls' s' ∧ ls'.length = 3 ∧
      s'.net.worlds[1]? = some wa' ∧
      (wa'.neighbourTable.find (pairWorld 0).identity).isSome := by
  obtain ⟨ls, hbegun⟩ := pairBegun_run
  have hheard := (hbegun.snoc (pairTick_step (by decide +kernel))).snoc
    (pairTick_step (by decide +kernel))
  have hbegin : LockstepStep none pairConfig pairHeard .beginStep ⟨pairHeard.net.rebuildGrid, 0⟩ :=
    LockstepStep.beginStep _ (by decide +kernel)
  have hrun' := ((Run.single hbegin).snoc (pairTick_step (by decide +kernel))).snoc
    (pairTick_step (by decide +kernel))
  have hfound : (pairHeard.net.worlds[1]?.bind fun w =>
      w.neighbourTable.find (pairWorld 0).identity).isSome := by
    decide +kernel
  obtain ⟨entry, hentry⟩ := Option.isSome_iff_exists.mp hfound
  obtain ⟨wa, ha, hfind⟩ := Option.bind_eq_some_iff.mp hentry
  have hfirst : (pairHeard.net.worlds[0]?.map World.identity) = some (pairWorld 0).identity := by
    decide +kernel
  obtain ⟨wb, hb, hidentity⟩ := Option.map_eq_some_iff.mp hfirst
  obtain ⟨wa', ha', -, hkept⟩ := no_flapping hheard hrun' ha
  refine ⟨_, _, _, wa', hheard, hrun', rfl, ha', ?_⟩
  rw [← hidentity]
  refine hkept 0 wb hb ?_
  rw [hidentity, hfind]
  rfl

end MithAtomas
