import MithAtomas.Comms.HonestBeacon
import MithAtomas.Comms.NeighbourTableHistory
import MithAtomas.Core.IdentityRotation
import MithAtomas.Core.UdpWorld

/-!
# A robot that hears itself

On the UDP transport every datagram comes back to its sender, sooner or later, and the identity may
have been rotated in the meantime. Two places skip an echo: the transport, which knows the id it was
opened with, and `BeaconSystem`, which knows the present one. An echo sent under an id between these
two passes both.

`EchoStep` is the life of such a robot: what comes to its socket are its own datagrams, at any time,
and those of robots that never have one of its ids. While no poll returns an old echo
(`EchoRobot.NoOldEcho`), all entries of its table are others' (`EchoInv.entries`), so it never has
itself for a neighbour (`own_ids_stay_out`). After two rotations it may
(`old_echo_becomes_neighbour`).
-/

namespace MithAtomas

open Runs UdpPort UdpMulticastTransport

variable (F U : Type)

/-- A robot on the UDP transport, with its history. -/
structure EchoRobot where
  robot : RotatingWorld F U
  port : UdpPort
  /-- every id it has had -/
  held : List HierarchicalID
  /-- every datagram it has sent -/
  aired : List (List UInt8)

inductive EchoEvent where
  /-- a tick of `BeaconSystem`: `early` comes to the socket before the first poll, `late` between
  the two -/
  | beaconTick (early late : List (List UInt8))
  | systemTick (s : ShippedSystem)
  | rotate (newId : HierarchicalID) (next : IdentityKeyPair)
  /-- the clock, or the mission -/
  | other

variable {F U} [FloatScalar F]

namespace EchoRobot

variable (e : EchoRobot F U)

/-- What the polls of a tick do. -/
def polls (early late : List (List UInt8)) :
    UdpPort × List (StateVector UInt32) × List (Message UInt32) :=
  (e.port.arrive early).poll late

/-- The world that polls. -/
def polling (early late : List (List UInt8)) : World F U :=
  e.robot.toWorld.onUdp (e.polls early late).2.1 (e.polls early late).2.2

def beaconTick (auth : Option SignatureScheme) (early late : List (List UInt8)) : EchoRobot F U :=
  let w := (e.polling early late).beaconTick auth
  { e with
    robot := { e.robot with toWorld := w }
    port := (e.polls early late).1
    aired := e.aired ++ w.sent.map Packet.onWire }

/-- A tick of a system that does not poll. -/
def systemTick (auth : Option SignatureScheme) (s : ShippedSystem) : EchoRobot F U :=
  let w := s.tick auth (e.robot.toWorld.onUdp [] [])
  { e with
    robot := { e.robot with toWorld := w }
    aired := e.aired ++ w.sent.map Packet.onWire }

def rotate (auth : Option SignatureScheme) (newId : HierarchicalID) (next : IdentityKeyPair) :
    EchoRobot F U :=
  { e with robot := e.robot.rotateIdentity auth newId next, held := e.held ++ [newId] }

/-- The robot after `init`, its transport opened with `self_id = identity()`. -/
def start (config : WorldConfig F) (identity : HierarchicalID) (keypair : Option IdentityKeyPair)
    (handlers : List MessageHandler) (user : U) (policy : IdentityRotationPolicy) (periodS : F) :
    EchoRobot F U where
  robot :=
    { toWorld := World.init config identity keypair handlers (some ⟨true⟩) (some ⟨true⟩) user
      policy
      rotationPeriodS := periodS
      lastRotationTimeS := 0 }
  port := { transport := { selfId := identity } }
  held := [identity]
  aired := []

/-- No poll returns an old echo: of its own beacons only those under the present id come back. -/
def NoOldEcho (e : EchoRobot F U) : EchoEvent → Prop
  | .beaconTick early late =>
    ∀ sv ∈ (e.polls early late).2.1, sv.id ∈ e.held → sv.id = e.robot.identity
  | .systemTick _ | .rotate _ _ | .other => True

end EchoRobot

/-- A datagram of somebody else. -/
def FromOthers (others : HierarchicalID → Prop) (datagram : List UInt8) : Prop :=
  Carries (fun sv => others sv.id) (fun _ => True) datagram

/-- One event. The others have the ids `others`; the robot never has one of these. -/
inductive EchoStep (auth : Option SignatureScheme) (others : HierarchicalID → Prop) :
    EchoRobot F U → EchoEvent → EchoRobot F U → Prop
  | beaconTick (e : EchoRobot F U) (early late : List (List UInt8))
      (hmedium : ∀ datagram ∈ early ++ late,
        datagram ∈ (e.beaconTick auth early late).aired ∨ FromOthers others datagram) :
      EchoStep auth others e (.beaconTick early late) (e.beaconTick auth early late)
  | systemTick (e : EchoRobot F U) (s : ShippedSystem) (hs : s ≠ .beacon) :
      EchoStep auth others e (.systemTick s) (e.systemTick auth s)
  | rotate (e : EchoRobot F U) (newId : HierarchicalID) (next : IdentityKeyPair)
      (hfresh : newId ∉ e.held) (hother : ¬ others newId) :
      EchoStep auth others e (.rotate newId next) (e.rotate auth newId next)
  | other (e : EchoRobot F U) (r : RotatingWorld F U) (hidentity : r.identity = e.robot.identity)
      (hentries : r.neighbourTable.entries = e.robot.neighbourTable.entries) :
      EchoStep auth others e .other { e with robot := r }

/-- What holds of such a robot while no old echo is polled. -/
structure EchoInv (others : HierarchicalID → Prop) (e : EchoRobot F U) : Prop where
  identity : e.robot.identity ∈ e.held
  apart : ∀ hid ∈ e.held, ¬ others hid
  /-- **all entries are others'** -/
  entries : ∀ entry ∈ e.robot.neighbourTable.entries, others entry.hid
  aired : ∀ datagram ∈ e.aired, Carries (fun sv => sv.id ∈ e.held) (fun _ => True) datagram
  port : e.port.Holds (fun sv => sv.id ∈ e.held ∨ others sv.id) (fun _ => True)

section Invariant

variable {auth : Option SignatureScheme} {others : HierarchicalID → Prop} {e e' : EchoRobot F U}
  {l : EchoEvent}

/-- What is sent under the present id carries a held one. -/
theorem EchoInv.carries_onWire (hI : EchoInv others e) {p : Packet F}
    (h : ∀ b, p = .beacon b → b.id = e.robot.identity) :
    Carries (fun sv => sv.id ∈ e.held) (fun _ => True) p.onWire := by
  cases p with
  | beacon b =>
    refine UdpPort.carries_beacon ?_
    show b.id ∈ e.held
    rw [h b rfl]
    exact hI.identity
  | message m => exact UdpPort.carries_message trivial

theorem EchoInv.aired_append (hI : EchoInv others e) {sent : List (Packet F)}
    (h : ∀ p ∈ sent, ∀ b, p = .beacon b → b.id = e.robot.identity) :
    ∀ datagram ∈ e.aired ++ sent.map Packet.onWire,
      Carries (fun sv => sv.id ∈ e.held) (fun _ => True) datagram := by
  intro datagram hd
  rcases List.mem_append.mp hd with hold | hnew
  · exact hI.aired datagram hold
  · obtain ⟨p, hp, rfl⟩ := List.mem_map.mp hnew
    exact hI.carries_onWire (h p hp)

/-- The beacons that are sent have the present id. -/
theorem EchoInv.aired_beaconTick (hI : EchoInv others e) (auth : Option SignatureScheme)
    (early late : List (List UInt8)) :
    ∀ datagram ∈ (e.beaconTick auth early late).aired,
      Carries (fun sv => sv.id ∈ e.held) (fun _ => True) datagram := by
  refine hI.aired_append ?_
  rintro p hp b rfl
  rcases World.mem_sent_beaconTick.mp hp with hnone | hout
  · cases hnone
  · rw [World.mem_outgoing hout, StateVector.id_signed]
    rfl

/-- Only `BeaconSystem` sends beacons. -/
theorem ShippedSystem.sent_message {s : ShippedSystem} (hs : s ≠ .beacon) {w : World F U}
    {p : Packet F} (hp : p ∈ (s.tick auth w).sent) : p ∈ w.sent ∨ ∃ m, p = .message m := by
  by_cases hdiscovery : s = .discovery
  · subst hdiscovery
    rcases List.mem_append.mp hp with hold | hnew
    · exact .inl hold
    · obtain ⟨m, -, rfl⟩ := List.mem_map.mp hnew
      exact .inr ⟨m, rfl⟩
  · by_cases htransmit : s = .transmit
    · subst htransmit
      change p ∈ (if _ then _ else _ : World F U).sent at hp
      split at hp
      · rcases List.mem_append.mp hp with hold | hnew
        · exact .inl hold
        · obtain ⟨m, -, rfl⟩ := List.mem_map.mp hnew
          exact .inr ⟨m, rfl⟩
      · exact .inl hp
    · have hframe : (s.tick auth w).sent = w.sent :=
        s.tick_frame (l := .sent) w (by
          cases s <;> first
            | exact absurd rfl hs | exact absurd rfl hdiscovery | exact absurd rfl htransmit
            | decide)
      exact .inl (hframe ▸ hp)

/-- **A tick of `BeaconSystem` without an old echo.** -/
theorem EchoInv.beaconTick (hI : EchoInv others e) {early late : List (List UInt8)}
    (hmedium : ∀ datagram ∈ early ++ late,
      datagram ∈ (e.beaconTick auth early late).aired ∨ FromOthers others datagram)
    (hguard : e.NoOldEcho (.beaconTick early late)) :
    EchoInv others (e.beaconTick auth early late) := by
  have haired := hI.aired_beaconTick auth early late
  -- what arrives is an own datagram, from the air, or one of the others
  have hcarries : ∀ datagram ∈ early ++ late,
      Carries (fun sv => sv.id ∈ e.held ∨ others sv.id) (fun _ => True) datagram := by
    intro datagram hd
    rcases hmedium datagram hd with hown | hforeign
    · exact (haired datagram hown).mono (fun _ => .inl) fun _ h => h
    · exact hforeign.mono (fun _ => .inr) fun _ h => h
  obtain ⟨hport, hpolled, -⟩ := (hI.port.arrive fun datagram hd =>
    hcarries datagram (List.mem_append_left _ hd)).poll fun datagram hd =>
      hcarries datagram (List.mem_append_right _ hd)
  have hidentity : ((e.polling early late).beaconTick auth).identity = e.robot.identity :=
    ShippedSystem.beacon.identity_tick auth (e.polling early late)
  have htable : ((e.polling early late).beaconTick auth).neighbourTable
      = ((e.polling early late).inboxAfter auth (e.polling early late).rxBeacons).table :=
    (World.neighbourTable_beaconTick auth).trans (if_pos rfl)
  unfold EchoRobot.beaconTick at haired ⊢
  refine ⟨?_, hI.apart, ?_, haired, hport⟩
  · show ((e.polling early late).beaconTick auth).identity ∈ e.held
    rw [hidentity]
    exact hI.identity
  · intro entry hentry
    change entry ∈ ((e.polling early late).beaconTick auth).neighbourTable.entries at hentry
    rw [htable] at hentry
    rcases World.mem_inboxAfter_or hentry with hold | ⟨b, hb, hother, rfl⟩
    · exact hI.entries entry hold
    · -- a beacon that is polled and not skipped is not an own one, as no old echo is polled
      obtain ⟨sv, hsv, rfl⟩ := List.mem_map.mp hb
      rcases (hpolled sv hsv).1 with hown | hothers
      · exact absurd (hguard sv hsv hown) hother
      · exact hothers

/-- **Every event keeps the invariant**, if it polls no old echo. -/
theorem EchoInv.step (hI : EchoInv others e) (hst : EchoStep auth others e l e')
    (hguard : e.NoOldEcho l) : EchoInv others e' := by
  cases hst with
  | beaconTick early late hmedium => exact hI.beaconTick hmedium hguard
  | systemTick s hs =>
    have hidentity := s.identity_tick auth (e.robot.toWorld.onUdp [] [])
    have htable : (s.tick auth (e.robot.toWorld.onUdp [] [])).neighbourTable
        = e.robot.neighbourTable :=
      s.tick_frame (l := .neighbourTable) _ (by cases s <;> first | exact absurd rfl hs | decide)
    refine ⟨?_, hI.apart, ?_, ?_, hI.port⟩
    · show (s.tick auth (e.robot.toWorld.onUdp [] [])).identity ∈ e.held
      rw [hidentity]
      exact hI.identity
    · show ∀ entry ∈ (s.tick auth (e.robot.toWorld.onUdp [] [])).neighbourTable.entries, _
      rw [htable]
      exact hI.entries
    · -- no system but `BeaconSystem` sends a beacon
      refine hI.aired_append ?_
      rintro p hp b rfl
      rcases ShippedSystem.sent_message hs hp with hnone | ⟨m, hsame⟩
      · cases hnone
      · cases hsame
  | rotate newId next hfresh hother =>
    obtain ⟨keypair, hworld⟩ := e.robot.toWorld_rotateIdentity auth newId next
    have hgrow : ∀ hid, hid ∈ e.held → hid ∈ e.held ++ [newId] :=
      fun hid h => List.mem_append_left _ h
    refine ⟨List.mem_append_right _ (List.mem_singleton_self _), ?_, ?_, ?_, ?_⟩
    · intro hid hhid
      rcases List.mem_append.mp hhid with hold | hnew
      · exact hI.apart hid hold
      · rw [List.mem_singleton.mp hnew]
        exact hother
    · show ∀ entry ∈ (e.robot.rotateIdentity auth newId next).neighbourTable.entries, _
      rw [hworld]
      exact hI.entries
    · exact fun datagram hd => (hI.aired datagram hd).mono (fun sv => hgrow sv.id) fun _ h => h
    · exact hI.port.mono (fun sv => Or.imp_left (hgrow sv.id)) fun _ h => h
  | other r hidentity hentries =>
    exact ⟨hidentity.symm ▸ hI.identity, hI.apart, hentries.symm ▸ hI.entries, hI.aired, hI.port⟩

end Invariant

/-- **Never its own neighbour.** In every run in which no poll returns an old echo, no entry of the
table has an id that the robot has or has had. -/
theorem own_ids_stay_out (auth : Option SignatureScheme) (others : HierarchicalID → Prop)
    (config : WorldConfig F) (identity : HierarchicalID) (hself : ¬ others identity)
    (keypair : Option IdentityKeyPair) (handlers : List MessageHandler) (user : U)
    (policy : IdentityRotationPolicy) (periodS : F) {ls : List (EchoEvent)} {e : EchoRobot F U}
    (hrun : Run (Guarded (EchoStep auth others) EchoRobot.NoOldEcho)
      (EchoRobot.start config identity keypair handlers user policy periodS) ls e) :
    ∀ entry ∈ e.robot.neighbourTable.entries, entry.hid ∉ e.held := by
  have hI : EchoInv others e := by
    refine hrun.invariant (I := EchoInv others) (fun _ _ _ hI hst => hI.step hst.2 hst.1) ?_
    refine ⟨List.mem_singleton_self _, ?_, by rintro entry ⟨⟩, by rintro datagram ⟨⟩, ?_⟩
    · intro hid hhid
      rw [List.mem_singleton.mp hhid]
      exact hself
    · exact ⟨by rintro sv ⟨⟩, by rintro msg ⟨⟩, by rintro datagram ⟨⟩⟩
  exact fun entry hentry hheld => hI.apart _ hheld (hI.entries entry hentry)

/-- In unsigned mode what is not skipped goes into the table. -/
theorem World.find_inboxAfter_unsigned {w : World F U} (hdistinct : w.neighbourTable.Distinct)
    (polled : List (StateVector F)) {b : StateVector F} (hother : b.id ≠ w.identity) :
    (w.inboxAfter none (polled ++ [b])).table.find b.id
      = some (Entry.ofBeacon b w.context.elapsedTimeS none) := by
  have hlast : (w.inboxAfter none (polled ++ [b])).table
      = (w.inboxAfter none polled).table.upsert b w.context.elapsedTimeS none := by
    unfold World.inboxAfter
    rw [List.foldl_concat]
    exact congrArg BeaconInbox.table (if_neg hother)
  rw [hlast, (World.distinct_inboxAfter hdistinct polled).find_upsert, if_pos rfl]

/-! ### Two rotations -/

/-- The id of the robot after some rotations. -/
def echoId (rotations : UInt8) : HierarchicalID :=
  ⟨1, ⟨Vector.replicate 16 (rotations + 1)⟩⟩

/-- Whatever it rotates to, in unsigned mode the key pair does not matter. -/
def noKeypair : IdentityKeyPair :=
  ⟨⟨Vector.replicate 32 0⟩, ⟨Vector.replicate 64 0⟩⟩

def echoRobot : EchoRobot ℚ Unit :=
  .start .default (echoId 0) none [] () .permanent 0

/-- It rotates its identity, and its clock reaches the beacon period. -/
def dueRobot : EchoRobot ℚ Unit :=
  let e := echoRobot.rotate none (echoId 1) noKeypair
  { e with robot := { e.robot with toWorld := e.robot.advance 10 } }

/-- It sends its beacon. -/
def sentRobot : EchoRobot ℚ Unit :=
  dueRobot.beaconTick none [] []

/-- The beacon is on the air. -/
def airedBeacon : StateVector ℚ :=
  (dueRobot.polling [] []).stateVector

theorem sentRobot_aired : sentRobot.aired = [(Packet.beacon airedBeacon).onWire] := by
  have hout : (dueRobot.polling [] []).outgoing none = [airedBeacon] := by
    unfold World.outgoing BeaconSystem.emit
    simp only
    split
    · rfl
    · next hnot => exact absurd (by decide +kernel) hnot
  show [] ++ List.map Packet.onWire ((dueRobot.polling [] []).beaconTick none).sent = _
  rw [World.sent_beaconTick, hout]
  rfl

/-- A poll of the robot's own beacon, by a transport that was opened under the first id. -/
theorem polls_airedBeacon (e : EchoRobot ℚ Unit) (hport : e.port = echoRobot.port) :
    (e.polls sentRobot.aired []).2.1 = [airedBeacon.bits] := by
  have hsocket : (e.port.arrive sentRobot.aired).socket
      = [Packet.beacon airedBeacon].map Packet.onWire := by
    rw [hport, sentRobot_aired]
    rfl
  have hself : (e.port.arrive sentRobot.aired).transport = echoRobot.port.transport := by
    rw [hport]
    rfl
  unfold EchoRobot.polls
  rw [((e.port.arrive sentRobot.aired).poll_eq []).1, hsocket, hself,
    UdpPort.foreignBeacons_onWire]
  rfl

/-- The steps until the beacon is on the air. -/
theorem sentRobot_run : ∃ ls, Run (Guarded (EchoStep none fun _ => False) EchoRobot.NoOldEcho)
    echoRobot ls sentRobot := by
  have hrotate : Guarded (EchoStep none fun _ => False) EchoRobot.NoOldEcho echoRobot
      (.rotate (echoId 1) noKeypair) (echoRobot.rotate none (echoId 1) noKeypair) :=
    ⟨trivial, EchoStep.rotate _ _ _ (by decide) id⟩
  have hclock : Guarded (EchoStep none fun _ => False) EchoRobot.NoOldEcho
      (echoRobot.rotate none (echoId 1) noKeypair) .other dueRobot :=
    ⟨trivial, EchoStep.other _ _ rfl rfl⟩
  have hsend : Guarded (EchoStep none fun _ => False) EchoRobot.NoOldEcho dueRobot
      (.beaconTick [] []) sentRobot := by
    refine ⟨?_, EchoStep.beaconTick _ _ _ (by rintro datagram ⟨⟩)⟩
    rintro sv ⟨⟩
  exact ⟨_, ((Run.single hrotate).snoc hclock).snoc hsend⟩

/-- The echo comes back before the identity changes again. -/
theorem present_echo_skipped : ∃ ls, ∃ e : EchoRobot ℚ Unit,
    Run (Guarded (EchoStep none fun _ => False) EchoRobot.NoOldEcho) echoRobot ls e ∧
      e.aired ≠ [] ∧ ∀ entry ∈ e.robot.neighbourTable.entries, entry.hid ∉ e.held := by
  obtain ⟨ls, hrun⟩ := sentRobot_run
  have hecho : Guarded (EchoStep none fun _ => False) EchoRobot.NoOldEcho sentRobot
      (.beaconTick sentRobot.aired []) (sentRobot.beaconTick none sentRobot.aired []) := by
    refine ⟨?_, EchoStep.beaconTick _ _ _ fun datagram hd => ?_⟩
    · intro sv hsv _
      rw [polls_airedBeacon sentRobot rfl] at hsv
      rw [List.mem_singleton.mp hsv]
      rfl
    · rw [List.append_nil] at hd
      exact .inl (List.mem_append_left _ hd)
  have hrun' := hrun.snoc hecho
  refine ⟨_, _, hrun', ?_, ?_⟩
  · unfold EchoRobot.beaconTick
    rw [sentRobot_aired]
    exact List.cons_ne_nil _ _
  · exact own_ids_stay_out none (fun _ => False) .default (echoId 0) id none [] ()
      .permanent 0 hrun'

/-- It rotates once more, and then the echo comes back. -/
def rotatedRobot : EchoRobot ℚ Unit :=
  sentRobot.rotate none (echoId 2) noKeypair

/-- **An old echo becomes a neighbour.** -/
theorem old_echo_becomes_neighbour :
    ¬ ∀ (ls : List EchoEvent) (e : EchoRobot ℚ Unit),
      Run (EchoStep none fun _ => False) echoRobot ls e →
      ∀ entry ∈ e.robot.neighbourTable.entries, entry.hid ∉ e.held := by
  intro hclaim
  obtain ⟨ls, hrun⟩ := sentRobot_run
  have hrotate : EchoStep none (fun _ => False) sentRobot (.rotate (echoId 2) noKeypair)
      rotatedRobot := EchoStep.rotate _ _ _ (by decide) id
  have hecho : EchoStep none (fun _ => False) rotatedRobot (.beaconTick sentRobot.aired [])
      (rotatedRobot.beaconTick none sentRobot.aired []) := by
    refine EchoStep.beaconTick _ _ _ fun datagram hd => ?_
    rw [List.append_nil] at hd
    exact .inl (List.mem_append_left _ hd)
  have hrun' := ((hrun.mono fun _ _ _ h => h.2).snoc hrotate).snoc hecho
  -- the table, which was empty, gets the echo
  have hdistinct : rotatedRobot.robot.neighbourTable.Distinct := by
    have htable : rotatedRobot.robot.neighbourTable
        = ((dueRobot.polling [] []).inboxAfter none []).table :=
      (World.neighbourTable_beaconTick none).trans (if_pos rfl)
    rw [htable]
    exact World.distinct_inboxAfter NeighbourTable.distinct_empty []
  have hrx : (rotatedRobot.polling sentRobot.aired []).rxBeacons
      = [StateVector.ofBits airedBeacon.bits] := by
    show List.map StateVector.ofBits (rotatedRobot.polls sentRobot.aired []).2.1 = _
    rw [polls_airedBeacon rotatedRobot rfl]
    rfl
  have hother : (StateVector.ofBits airedBeacon.bits : StateVector ℚ).id
      ≠ (rotatedRobot.polling sentRobot.aired []).identity := by
    decide
  have hmem := List.mem_of_find?_eq_some (World.find_inboxAfter_unsigned hdistinct [] hother)
  have hentry : Entry.ofBeacon (StateVector.ofBits airedBeacon.bits)
      (rotatedRobot.polling sentRobot.aired []).context.elapsedTimeS none
        ∈ (rotatedRobot.beaconTick none sentRobot.aired []).robot.neighbourTable.entries := by
    show _ ∈ ((rotatedRobot.polling sentRobot.aired []).beaconTick none).neighbourTable.entries
    rw [World.neighbourTable_beaconTick, hrx]
    exact hmem
  have hheld : echoId 1 ∈ (rotatedRobot.beaconTick none sentRobot.aired []).held := by
    show echoId 1 ∈ [echoId 0, echoId 1, echoId 2]
    decide
  exact hclaim _ _ hrun' _ hentry hheld

end MithAtomas
