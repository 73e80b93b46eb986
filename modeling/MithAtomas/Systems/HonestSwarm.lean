import MithAtomas.Comms.HonestBeacon
import MithAtomas.Core.BeaconTick
import MithAtomas.Core.IdentityRotation

/-!
# A swarm of honest robots

A finite group of robots in signed mode, each with `BeaconSystem` and with no message handler, so
that beacons alone write the registries of peer keys. They tick their systems in any order and
rotate their identities at any time. The medium hands out whatever it likes of what has been
emitted, as often and as late as it likes, unaltered (`SwarmStep.tick`). A generated id has never
been used before, and a generated key pair signs correctly (`SwarmStep.rotate`).

`Swarm.held` and `Swarm.emitted` are history: who has held which id with which key, and who has
emitted which beacon. `SwarmInv` is the invariant they carry. An id has one owner and one key in all
of the history; a beacon that was ever emitted verifies, under the key that belongs to its id; and
all that is pinned anywhere is in the history. So no pin ever clashes with a beacon, however late
(`SwarmInv.tick`), and nothing is rejected.
-/

namespace MithAtomas

open Runs

variable {F U : Type} {n : ℕ}

variable [FloatScalar F]

/-- Only `BeaconSystem` sends beacons. -/
theorem ShippedSystem.beacons_tick {auth : Option SignatureScheme} {s : ShippedSystem}
    (hs : s ≠ .beacon) (w : World F U) :
    (s.tick auth w).sent.filterMap Packet.beacon? = w.sent.filterMap Packet.beacon? := by
  cases s with
  | beacon => exact absurd rfl hs
  | discovery =>
    show (w.sent ++ List.map _ _).filterMap _ = _
    rw [List.filterMap_append, Packet.filterMap_messages, List.append_nil]
  | transmit =>
    show (World.transmitTick w).sent.filterMap _ = _
    unfold World.transmitTick
    split
    · show (w.sent ++ List.map _ _).filterMap _ = _
      rw [List.filterMap_append, Packet.filterMap_messages, List.append_nil]
    · rfl
  | _ =>
    refine congrArg (List.filterMap Packet.beacon?) ?_
    exact ShippedSystem.tick_frame (l := .sent) _ w (by decide)

/-- And it sends what it emits. -/
theorem World.beacons_beaconTick {auth : Option SignatureScheme} (w : World F U) :
    (w.beaconTick auth).sent.filterMap Packet.beacon?
      = w.sent.filterMap Packet.beacon? ++ w.outgoing auth := by
  rw [World.sent_beaconTick, List.filterMap_append, List.filterMap_append,
    Packet.filterMap_beacons, Packet.filterMap_messages, List.append_nil]

variable (F U n) in
/-- The robots, and what has happened so far. -/
structure Swarm where
  robots : Fin n → RotatingWorld F U
  /-- every identity a robot has had: the robot, the id and the key -/
  held : List (Fin n × HierarchicalID × IdentityKey)
  /-- every beacon a robot has sent -/
  emitted : List (Fin n × StateVector F)

variable (F n) in
inductive SwarmEvent where
  /-- a system of robot `i` ticks, and `poll_beacons` would return `delivered` -/
  | tick (i : Fin n) (sys : ShippedSystem) (delivered : List (StateVector F))
  | rotate (i : Fin n) (newId : HierarchicalID) (next : IdentityKeyPair)
  /-- the clock of robot `i`, or its mission -/
  | other (i : Fin n)

namespace Swarm

variable (s : Swarm F U n) (i : Fin n)

/-- Robot `i` with `delivered` on its transport. -/
def polling (delivered : List (StateVector F)) : World F U :=
  { (s.robots i).toWorld with rxBeacons := delivered, sent := [] }

def setRobot (r : RotatingWorld F U) : Swarm F U n :=
  { s with robots := Function.update s.robots i r }

/-- A tick of one system; the medium takes what it sends. -/
def tick (scheme : SignatureScheme) (sys : ShippedSystem) (delivered : List (StateVector F)) :
    Swarm F U n :=
  let w := sys.tick (some scheme) (s.polling i delivered)
  { s.setRobot i { s.robots i with toWorld := w } with
    emitted := s.emitted ++ (w.sent.filterMap Packet.beacon?).map (i, ·) }

def rotate (scheme : SignatureScheme) (newId : HierarchicalID) (next : IdentityKeyPair) :
    Swarm F U n :=
  { s.setRobot i ((s.robots i).rotateIdentity (some scheme) newId next) with
    held := s.held ++ [(i, newId, next.publicKey)] }

end Swarm

/-- One event in the life of a swarm. -/
inductive SwarmStep (scheme : SignatureScheme) :
    Swarm F U n → SwarmEvent F n → Swarm F U n → Prop
  | tick (s : Swarm F U n) (i : Fin n) (sys : ShippedSystem) (delivered : List (StateVector F))
      (hmedium : ∀ b ∈ delivered, ∃ j, (j, b) ∈ (s.tick i scheme sys delivered).emitted) :
      SwarmStep scheme s (.tick i sys delivered) (s.tick i scheme sys delivered)
  | rotate (s : Swarm F U n) (i : Fin n) (newId : HierarchicalID) (next : IdentityKeyPair)
      (hfresh : ∀ h ∈ s.held, h.2.1 ≠ newId) (hcorrect : scheme.Correct next) :
      SwarmStep scheme s (.rotate i newId next) (s.rotate i scheme newId next)
  | other (s : Swarm F U n) (i : Fin n) (r : RotatingWorld F U)
      (hidentity : r.identity = (s.robots i).identity)
      (hkeypair : r.keypair = (s.robots i).keypair)
      (hkeys : r.peerKeys = (s.robots i).peerKeys)
      (hrejected : r.beacon.rejectedBeacons = (s.robots i).beacon.rejectedBeacons)
      (hhandlers : r.messageHandlers = (s.robots i).messageHandlers) :
      SwarmStep scheme s (.other i) (s.setRobot i r)

/-- The key has belonged to the id. -/
def Swarm.Bound (s : Swarm F U n) (hid : HierarchicalID) (key : IdentityKey) : Prop :=
  ∃ i, (i, hid, key) ∈ s.held

/-- What holds of each robot. -/
structure RobotInv (scheme : SignatureScheme) (s : Swarm F U n) (i : Fin n)
    (r : RotatingWorld F U) : Prop where
  /-- its present identity is in the history -/
  current : ∃ kp, r.keypair = some kp ∧ scheme.Correct kp ∧ (i, r.identity, kp.publicKey) ∈ s.held
  pins : BeaconInbox.PinsWithin s.Bound r.peerKeys
  rejected : r.beacon.rejectedBeacons = 0
  handlers : r.messageHandlers = []

structure SwarmInv (scheme : SignatureScheme) (s : Swarm F U n) : Prop where
  robots : ∀ i, RobotInv scheme s i (s.robots i)
  /-- an id has one owner and one key -/
  held : ∀ i i' hid key key', (i, hid, key) ∈ s.held → (i', hid, key') ∈ s.held →
    i = i' ∧ key = key'
  emitted : ∀ i b, (i, b) ∈ s.emitted →
    b.verifies scheme = true ∧ (i, b.id, b.senderPubkey) ∈ s.held

section Invariant

variable {scheme : SignatureScheme} {s s' : Swarm F U n} {e : SwarmEvent F n} {i : Fin n}

omit [FloatScalar F] in
/-- A larger history keeps what holds of a robot. -/
theorem RobotInv.mono {r : RotatingWorld F U} (h : RobotInv scheme s i r)
    (hheld : ∀ x ∈ s.held, x ∈ s'.held) : RobotInv scheme s' i r where
  current := by
    obtain ⟨kp, hkp, hcorrect, hmem⟩ := h.current
    exact ⟨kp, hkp, hcorrect, hheld _ hmem⟩
  pins := by
    intro hid key hfind
    obtain ⟨j, hj⟩ := h.pins hid key hfind
    exact ⟨j, hheld _ hj⟩
  rejected := h.rejected
  handlers := h.handlers

/-- What a robot emits is in order. -/
theorem RobotInv.outgoing (h : RobotInv scheme s i (s.robots i))
    {delivered : List (StateVector F)} {b : StateVector F}
    (hb : b ∈ (s.polling i delivered).outgoing (some scheme)) :
    b.verifies scheme = true ∧ (i, b.id, b.senderPubkey) ∈ s.held := by
  obtain ⟨kp, hkp, hcorrect, hmem⟩ := h.current
  have hsigned := World.mem_outgoing hb
  have hkp' : (s.polling i delivered).keypair = some kp := hkp
  rw [hkp'] at hsigned
  rw [hsigned]
  exact ⟨StateVector.verifies_signed hcorrect _, hmem⟩

/-- The history of the beacons after a tick. -/
theorem SwarmInv.emitted_tick (hI : SwarmInv scheme s) (i : Fin n) (sys : ShippedSystem)
    (delivered : List (StateVector F)) (j : Fin n) (b : StateVector F)
    (hb : (j, b) ∈ (s.tick i scheme sys delivered).emitted) :
    b.verifies scheme = true ∧ (j, b.id, b.senderPubkey) ∈ s.held := by
  rcases List.mem_append.mp hb with hold | hnew
  · exact hI.emitted j b hold
  · obtain ⟨b', hb', heq⟩ := List.mem_map.mp hnew
    obtain ⟨rfl, rfl⟩ := Prod.mk.inj heq
    by_cases hsys : sys = .beacon
    · subst hsys
      change b' ∈ ((s.polling i delivered).beaconTick (some scheme)).sent.filterMap _ at hb'
      rw [World.beacons_beaconTick] at hb'
      exact (hI.robots i).outgoing hb'
    · rw [ShippedSystem.beacons_tick hsys] at hb'
      cases hb'

/-- **One poll of an honest medium**: every beacon that is not an echo is upserted, in order, none
is rejected, and the pins stay within the history. -/
theorem SwarmInv.inboxAfter (hI : SwarmInv scheme s) {sys : ShippedSystem}
    {delivered : List (StateVector F)}
    (hmedium : ∀ b ∈ delivered, ∃ j, (j, b) ∈ (s.tick i scheme sys delivered).emitted) :
    ((s.polling i delivered).inboxAfter (some scheme) delivered).table
        = (delivered.filter fun b => b.id ≠ (s.robots i).identity).foldl
            (fun t b => t.upsert b (s.robots i).context.elapsedTimeS none)
            (s.robots i).ageNeighbours.neighbourTable ∧
      ((s.polling i delivered).inboxAfter (some scheme) delivered).rejectedBeacons = 0 ∧
      BeaconInbox.PinsWithin s.Bound
        ((s.polling i delivered).inboxAfter (some scheme) delivered).keys := by
  have hpolled : ∀ b ∈ delivered, b.verifies scheme = true ∧ s.Bound b.id b.senderPubkey := by
    intro b hb
    obtain ⟨j, hj⟩ := hmedium b hb
    obtain ⟨hverifies, hheld⟩ := hI.emitted_tick i sys delivered j b hj
    exact ⟨hverifies, j, hheld⟩
  -- an id is bound to one key, the one that its beacons carry
  have hbound : ∀ b ∈ delivered, ∀ key, s.Bound b.id key ↔ key = b.senderPubkey := by
    intro b hb key
    obtain ⟨j, hj⟩ := (hpolled b hb).2
    constructor
    · rintro ⟨j', hj'⟩
      exact (hI.held j' j b.id _ _ hj' hj).2
    · rintro rfl
      exact ⟨j, hj⟩
  have hverifies : ∀ b ∈ delivered, ∀ scheme', some scheme = some scheme' →
      b.senderPubkey.present = true → b.verifies scheme' = true := by
    rintro b hb _ ⟨⟩ -
    exact (hpolled b hb).1
  obtain ⟨htable, hrejected, hpins⟩ := BeaconInbox.foldl_receive_vouched (some scheme)
    (s.polling i delivered).identity (s.polling i delivered).context.elapsedTimeS
    ⟨(s.polling i delivered).ageNeighbours.neighbourTable, (s.polling i delivered).peerKeys,
      (s.polling i delivered).beacon.rejectedBeacons⟩ hverifies hbound (hI.robots i).pins
  exact ⟨htable, hrejected.trans (hI.robots i).rejected, hpins⟩

/-- **A tick keeps the invariant.** -/
theorem SwarmInv.robot_tick (hI : SwarmInv scheme s) {sys : ShippedSystem}
    {delivered : List (StateVector F)}
    (hmedium : ∀ b ∈ delivered, ∃ j, (j, b) ∈ (s.tick i scheme sys delivered).emitted) :
    RobotInv scheme s i
      { s.robots i with toWorld := sys.tick (some scheme) (s.polling i delivered) } := by
  have h := hI.robots i
  have hidentity := sys.identity_tick (some scheme) (s.polling i delivered)
  have hkeypair := sys.keypair_tick (some scheme) (s.polling i delivered)
  have hhandlers := sys.messageHandlers_tick (some scheme) (s.polling i delivered)
  -- no system changes the identity or the key pair
  have hcurrent : ∃ kp, (sys.tick (some scheme) (s.polling i delivered)).keypair = some kp ∧
      scheme.Correct kp ∧
      (i, (sys.tick (some scheme) (s.polling i delivered)).identity, kp.publicKey) ∈ s.held := by
    rw [hidentity, hkeypair]
    exact h.current
  by_cases hsys : sys = .beacon
  · subst hsys
    obtain ⟨-, hrejected, hpins⟩ := hI.inboxAfter hmedium
    refine ⟨hcurrent, ?_, ?_, hhandlers.trans h.handlers⟩
    · show BeaconInbox.PinsWithin s.Bound
        ((s.polling i delivered).beaconTick (some scheme)).peerKeys
      rw [World.peerKeys_beaconTick (w := s.polling i delivered) h.handlers]
      split
      · exact hpins
      · exact h.pins
    · show ((s.polling i delivered).beaconTick (some scheme)).beacon.rejectedBeacons = 0
      rw [World.rejectedBeacons_beaconTick]
      split
      · exact hrejected
      · exact h.rejected
  · -- no other system touches the registry or the counter
    have hkeys : (sys.tick (some scheme) (s.polling i delivered)).peerKeys
        = (s.polling i delivered).peerKeys :=
      sys.tick_frame (l := .peerKeys) _ (by cases sys <;> first | exact absurd rfl hsys | decide)
    have hbeacon : (sys.tick (some scheme) (s.polling i delivered)).beacon
        = (s.polling i delivered).beacon :=
      sys.tick_frame (l := .beacon) _ (by cases sys <;> first | exact absurd rfl hsys | decide)
    refine ⟨hcurrent, ?_, ?_, hhandlers.trans h.handlers⟩
    · show BeaconInbox.PinsWithin s.Bound (sys.tick (some scheme) (s.polling i delivered)).peerKeys
      rw [hkeys]
      exact h.pins
    · show (sys.tick (some scheme) (s.polling i delivered)).beacon.rejectedBeacons = 0
      rw [hbeacon]
      exact h.rejected

/-- A robot that is replaced, in a history that has grown. -/
theorem SwarmInv.setRobot (hI : SwarmInv scheme s) (s' : Swarm F U n) {r : RotatingWorld F U}
    (hrobots : s'.robots = Function.update s.robots i r)
    (hheld : ∀ x ∈ s.held, x ∈ s'.held) (hr : RobotInv scheme s' i r) (j : Fin n) :
    RobotInv scheme s' j (s'.robots j) := by
  rw [hrobots]
  by_cases hj : j = i
  · subst hj
    rw [Function.update_self]
    exact hr
  · rw [Function.update_of_ne hj]
    exact (hI.robots j).mono hheld

theorem SwarmInv.tick (hI : SwarmInv scheme s) {sys : ShippedSystem}
    {delivered : List (StateVector F)}
    (hmedium : ∀ b ∈ delivered, ∃ j, (j, b) ∈ (s.tick i scheme sys delivered).emitted) :
    SwarmInv scheme (s.tick i scheme sys delivered) where
  robots := hI.setRobot (s.tick i scheme sys delivered) rfl (fun _ hx => hx)
    ((hI.robot_tick hmedium).mono fun _ hx => hx)
  held := hI.held
  emitted := hI.emitted_tick i sys delivered

/-- **A rotation binds a new id to a new key.** -/
theorem SwarmInv.rotate (hI : SwarmInv scheme s) {newId : HierarchicalID} {next : IdentityKeyPair}
    (hfresh : ∀ h ∈ s.held, h.2.1 ≠ newId) (hcorrect : scheme.Correct next) :
    SwarmInv scheme (s.rotate i scheme newId next) := by
  have hgrow : ∀ x ∈ s.held, x ∈ (s.rotate i scheme newId next).held :=
    fun x hx => List.mem_append_left _ hx
  have hnew : (i, newId, next.publicKey) ∈ (s.rotate i scheme newId next).held :=
    List.mem_append_right _ (List.mem_singleton_self _)
  constructor
  · refine hI.setRobot (s.rotate i scheme newId next) rfl hgrow ?_
    obtain ⟨kp, hkp, -⟩ := (hI.robots i).current
    obtain ⟨keypair, hworld⟩ := RotatingWorld.toWorld_rotateIdentity (s.robots i) (some scheme)
      newId next
    have hrest : RobotInv scheme (s.rotate i scheme newId next) i (s.robots i) :=
      (hI.robots i).mono hgrow
    refine ⟨⟨next, RotatingWorld.keypair_rotateIdentity hkp, hcorrect, hnew⟩, ?_, ?_, ?_⟩
    · rw [hworld]
      exact hrest.pins
    · rw [hworld]
      exact hrest.rejected
    · rw [hworld]
      exact hrest.handlers
  · -- an id is new or old, and the new one has not been held by anyone
    intro j j' hid key key' hj hj'
    rcases List.mem_append.mp hj with hold | hj <;> rcases List.mem_append.mp hj' with hold' | hj'
    · exact hI.held j j' hid key key' hold hold'
    · obtain ⟨rfl, rfl, rfl⟩ : j' = i ∧ hid = newId ∧ key' = next.publicKey := by
        simpa using List.mem_singleton.mp hj'
      exact absurd rfl (hfresh _ hold)
    · obtain ⟨rfl, rfl, rfl⟩ : j = i ∧ hid = newId ∧ key = next.publicKey := by
        simpa using List.mem_singleton.mp hj
      exact absurd rfl (hfresh _ hold')
    · obtain ⟨rfl, -, rfl⟩ : j = i ∧ hid = newId ∧ key = next.publicKey := by
        simpa using List.mem_singleton.mp hj
      obtain ⟨rfl, -, rfl⟩ : j' = j ∧ hid = newId ∧ key' = next.publicKey := by
        simpa using List.mem_singleton.mp hj'
      exact ⟨rfl, rfl⟩
  · -- what was emitted verifies as before
    intro j b hb
    obtain ⟨hverifies, hheld⟩ := hI.emitted j b hb
    exact ⟨hverifies, hgrow _ hheld⟩

/-- **Every event keeps the invariant.** -/
theorem SwarmInv.step (hI : SwarmInv scheme s) (hst : SwarmStep scheme s e s') :
    SwarmInv scheme s' := by
  cases hst with
  | tick i sys delivered hmedium => exact hI.tick hmedium
  | rotate i newId next hfresh hcorrect => exact hI.rotate hfresh hcorrect
  | other i r hidentity hkeypair hkeys hrejected hhandlers =>
    refine ⟨hI.setRobot (s.setRobot i r) rfl (fun _ hx => hx) ?_, hI.held, hI.emitted⟩
    have h := hI.robots i
    refine ⟨?_, ?_, hrejected.trans h.rejected, hhandlers.trans h.handlers⟩
    · rw [hidentity, hkeypair]
      exact h.current
    · rw [hkeys]
      exact h.pins

end Invariant

/-! ### From the start -/

/-- The robots after `init`. -/
def Swarm.start (ids : Fin n → HierarchicalID) (keypairs : Fin n → IdentityKeyPair)
    (config : Fin n → WorldConfig F) (beaconTransport messageTransport : Fin n → Option Channel)
    (user : Fin n → U) (policy : Fin n → IdentityRotationPolicy) (periodS : Fin n → F) :
    Swarm F U n where
  robots := fun i =>
    { toWorld := World.init (config i) (ids i) (some (keypairs i)) [] (beaconTransport i)
        (messageTransport i) (user i)
      policy := policy i
      rotationPeriodS := periodS i
      lastRotationTimeS := 0 }
  held := List.ofFn fun i => (i, ids i, (keypairs i).publicKey)
  emitted := []

section Start

variable {scheme : SignatureScheme} {ids : Fin n → HierarchicalID}
  {keypairs : Fin n → IdentityKeyPair} {config : Fin n → WorldConfig F}
  {beaconTransport messageTransport : Fin n → Option Channel} {user : Fin n → U}
  {policy : Fin n → IdentityRotationPolicy} {periodS : Fin n → F}

theorem SwarmInv.start (hids : Function.Injective ids)
    (hcorrect : ∀ i, scheme.Correct (keypairs i)) :
    SwarmInv scheme (Swarm.start ids keypairs config beaconTransport messageTransport user policy
      periodS) where
  robots := fun i =>
    { current := ⟨keypairs i, rfl, hcorrect i, List.mem_ofFn.mpr ⟨i, rfl⟩⟩
      pins := by
        rintro hid key ⟨⟩
      rejected := rfl
      handlers := rfl }
  held := by
    intro i i' hid key key' h h'
    obtain ⟨j, hj⟩ := List.mem_ofFn.mp h
    obtain ⟨j', hj'⟩ := List.mem_ofFn.mp h'
    obtain ⟨rfl, rfl, rfl⟩ : j = i ∧ ids j = hid ∧ (keypairs j).publicKey = key := by
      simpa using hj
    obtain ⟨rfl, hsame, rfl⟩ : j' = i' ∧ ids j' = ids j ∧ (keypairs j').publicKey = key' := by
      simpa using hj'
    obtain rfl := hids hsame
    exact ⟨rfl, rfl⟩
  emitted := by
    rintro i b ⟨⟩

/-- **No false rejection.** In every run of a swarm of honest robots no beacon is ever rejected by
anybody; and whenever `BeaconSystem` of a robot polls, the table it leaves is the aged one with
every beacon polled that is not an echo upserted, in order, among them every beacon of another
robot. -/
theorem honest_swarm_rejects_nothing (hids : Function.Injective ids)
    (hcorrect : ∀ i, scheme.Correct (keypairs i)) {es : List (SwarmEvent F n)} {s : Swarm F U n}
    (hrun : Run (SwarmStep scheme) (Swarm.start ids keypairs config beaconTransport messageTransport
      user policy periodS) es s) :
    (∀ i, (s.robots i).beacon.rejectedBeacons = 0) ∧
    ∀ i delivered s', SwarmStep scheme s (.tick i .beacon delivered) s' →
      usable (s.robots i).beaconTransport = true →
      (s'.robots i).neighbourTable
          = (delivered.filter fun b => b.id ≠ (s.robots i).identity).foldl
              (fun t b => t.upsert b (s.robots i).context.elapsedTimeS none)
              (s.robots i).ageNeighbours.neighbourTable ∧
        ∀ j b, (j, b) ∈ s'.emitted → j ≠ i → b.id ≠ (s.robots i).identity := by
  have hI : SwarmInv scheme s :=
    hrun.invariant (fun _ _ _ hI hst => hI.step hst) (SwarmInv.start hids hcorrect)
  refine ⟨fun i => (hI.robots i).rejected, ?_⟩
  intro i delivered s' hst husable
  cases hst with
  | tick _ _ _ hmedium =>
    constructor
    · have htable : ((s.tick i scheme .beacon delivered).robots i).neighbourTable
          = ((s.polling i delivered).beaconTick (some scheme)).neighbourTable :=
        congrArg (fun r : RotatingWorld F U => r.neighbourTable) (Function.update_self i _ s.robots)
      rw [htable, World.neighbourTable_beaconTick,
        if_pos (show usable (s.polling i delivered).beaconTransport = true from husable)]
      exact (hI.inboxAfter hmedium).1
    · intro j b hb hne hsame
      -- an id has one owner
      obtain ⟨-, hheld⟩ := hI.emitted_tick i .beacon delivered j b hb
      obtain ⟨kp, -, -, hmine⟩ := (hI.robots i).current
      rw [hsame] at hheld
      exact hne (hI.held j i _ _ _ hheld hmine).1

end Start

/-! ### Two robots -/

/-- Two robots that have just been started. -/
def twoRobots : Swarm ℚ Unit 2 :=
  .start ![⟨1, ⟨Vector.replicate 16 1⟩⟩, ⟨1, ⟨Vector.replicate 16 2⟩⟩]
    (fun _ => ⟨⟨Vector.replicate 32 7⟩, ⟨Vector.replicate 64 9⟩⟩)
    (fun _ => .default) (fun _ => some ⟨true⟩) (fun _ => some ⟨true⟩) (fun _ => ())
    (fun _ => .permanent) (fun _ => 0)

/-- The clock of the first robot reaches its beacon period. -/
def firstAdvanced : Swarm ℚ Unit 2 :=
  twoRobots.setRobot 0 { twoRobots.robots 0 with toWorld := (twoRobots.robots 0).advance 10 }

/-- The first robot sends its beacon. -/
def firstHeard : Swarm ℚ Unit 2 :=
  firstAdvanced.tick 0 stampScheme .beacon []

/-- The second robot hears it, and puts it into its table. -/
theorem twoRobots_reject_nothing : ∃ (es : List (SwarmEvent ℚ 2)) (s : Swarm ℚ Unit 2),
    Run (SwarmStep stampScheme) twoRobots es s ∧ (s.robots 1).neighbourTable.entries.length = 1 ∧
      ∀ i, (s.robots i).beacon.rejectedBeacons = 0 := by
  have hclock : SwarmStep stampScheme twoRobots (.other 0) firstAdvanced :=
    SwarmStep.other _ _ _ rfl rfl rfl rfl rfl
  have hsend : SwarmStep stampScheme firstAdvanced (.tick 0 .beacon []) firstHeard :=
    SwarmStep.tick _ _ _ _ fun b hb => absurd hb List.not_mem_nil
  have hhear : SwarmStep stampScheme firstHeard (.tick 1 .beacon (firstHeard.emitted.map Prod.snd))
      (firstHeard.tick 1 stampScheme .beacon (firstHeard.emitted.map Prod.snd)) := by
    refine SwarmStep.tick _ _ _ _ fun b hb => ?_
    obtain ⟨⟨j, b⟩, hmem, rfl⟩ := List.mem_map.mp hb
    exact ⟨j, List.mem_append_left _ hmem⟩
  have hrun := ((Run.single hclock).snoc hsend).snoc hhear
  refine ⟨_, _, hrun, by decide +kernel, ?_⟩
  exact (honest_swarm_rejects_nothing (by decide) (fun _ => stampScheme_correct _) hrun).1

end MithAtomas
