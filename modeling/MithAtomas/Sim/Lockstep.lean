import MithAtomas.Comms.HonestBeacon
import MithAtomas.Framework.Runs
import MithAtomas.Sim.SimBusDelivery
import MithAtomas.Sim.SimNetwork

/-!
# A simulation in lockstep

`SimBus::advance` rebuilds the grid and then ticks the worlds in the order in which they were
created, each of them once. `Lockstep.next` is how many have ticked in the present step; between the
steps it is the number of worlds.

The worlds of `LockstepStep` have the same tick rate and beacon period, do not move, are within
range of each other and do not rotate their ids. They may be created at any time between the steps,
may send any messages, and may run any further systems that leave alone what `BeaconSystem` works
with (`World.SameBeacons`). In signed mode, no hello or welcome that is polled advertises a false
key for an id of one of them (`Station.Vouches`).
-/

namespace MithAtomas

variable {U : Type}

/-- What does not change about a world: who it is, and where. -/
structure Station where
  identity : HierarchicalID
  keypair : Option IdentityKeyPair
  position : PositionComponent ℚ

def World.station (w : World ℚ U) : Station :=
  ⟨w.identity, w.keypair, w.position⟩

namespace Station

variable (auth : Option SignatureScheme) (st : Station)

/-- The key that its beacons carry. -/
def key : IdentityKey :=
  match auth, st.keypair with
  | some _, some kp => kp.publicKey
  | _, _ => {}

/-- Its key pair signs correctly, if it has one. -/
def SignsCorrectly : Prop :=
  ∀ scheme kp, auth = some scheme → st.keypair = some kp → scheme.Correct kp

/-- A message that is honest about it: in signed mode, if it is a hello or a welcome under its id,
the key that it advertises is its own. -/
def Vouches (m : Message ℚ) : Prop :=
  auth.isSome = true → DiscoverySystem.IsDiscovery m → m.sender = st.identity →
    ∀ key, DiscoverySystem.extractPubkey m = some key → key = st.key auth

end Station

/-- The worlds agree on what `BeaconSystem` works with, the transports apart. -/
structure World.SameBeacons (w w' : World ℚ U) : Prop where
  station : w'.station = w.station
  context : w'.context = w.context
  neighbourTable : w'.neighbourTable = w.neighbourTable
  peerKeys : w'.peerKeys = w.peerKeys
  beacon : w'.beacon = w.beacon

theorem World.SameBeacons.refl (w : World ℚ U) : w.SameBeacons w :=
  ⟨rfl, rfl, rfl, rfl, rfl⟩

variable (U) in
structure Lockstep where
  net : SimNetwork ℚ U
  /-- how many worlds have ticked in the present step -/
  next : ℕ

variable (U) in
inductive LockstepEvent where
  | createWorld (w : World ℚ U)
  /-- a step of `advance` begins -/
  | beginStep
  /-- the next world ticks -/
  | tick
  /-- the mission of world `i`, or one of its other systems, sends -/
  | send (i : ℕ) (m : Message ℚ)
  /-- the mission of world `i`, or one of its other systems -/
  | other (i : ℕ)

/-- What the worlds have in common. -/
structure LockstepConfig where
  commRangeM : ℚ
  tickRateHz : ℚ
  beaconPeriodS : ℚ
  tickRate_pos : 0 < tickRateHz
  beaconPeriod_pos : 0 < beaconPeriodS

namespace LockstepConfig

variable (config : LockstepConfig)

/-- `1.0f / tick_rate_hz`. -/
def deltaTimeS : ℚ :=
  1 / config.tickRateHz

theorem deltaTime_nonneg : 0 ≤ config.deltaTimeS :=
  (one_div_pos.mpr config.tickRate_pos).le

end LockstepConfig

def SimNetwork.stations (net : SimNetwork ℚ U) : List Station :=
  net.worlds.map World.station

/-- A world that has just been created and put in its place: it knows nobody, and nobody knows its
id. -/
structure Newcomer (auth : Option SignatureScheme) (config : LockstepConfig)
    (net : SimNetwork ℚ U) (w : World ℚ U) : Prop where
  entries : w.neighbourTable.entries = []
  peerKeys : w.peerKeys = ∅
  timer : w.beacon.timeSinceLastBeaconS = 0
  period : w.beacon.beaconPeriodS = config.beaconPeriodS
  timeout : config.beaconPeriodS + config.deltaTimeS ≤ w.beacon.neighbourTimeoutS
  signsCorrectly : w.station.SignsCorrectly auth
  fresh : ∀ w' ∈ net.worlds, w'.identity ≠ w.identity
  unpinned : ∀ w' ∈ net.worlds, w'.peerKeys.find w.identity = none
  inRange : ∀ w' ∈ net.worlds, SimBus.InRange config.commRangeM w'.position w.position

namespace Lockstep

variable (s : Lockstep U)

def init (config : LockstepConfig) : Lockstep U :=
  ⟨.init config.commRangeM, 0⟩

/-- `w` is the world that ticks, when `BeaconSystem` is reached. -/
def tick (auth : Option SignatureScheme) (w : World ℚ U) : Lockstep U :=
  ⟨s.net.beaconTick auth s.next w, s.next + 1⟩

end Lockstep

/-- One event. -/
inductive LockstepStep (auth : Option SignatureScheme) (config : LockstepConfig) :
    Lockstep U → LockstepEvent U → Lockstep U → Prop
  | createWorld (s : Lockstep U) (w : World ℚ U) (hbetween : s.next = s.net.worlds.length)
      (hnew : Newcomer auth config s.net w) :
      LockstepStep auth config s (.createWorld w) ⟨s.net.createWorld w, s.next + 1⟩
  | beginStep (s : Lockstep U) (hbetween : s.next = s.net.worlds.length) :
      LockstepStep auth config s .beginStep ⟨s.net.rebuildGrid, 0⟩
  | tick (s : Lockstep U) (w w' : World ℚ U) (hw : s.net.worlds[s.next]? = some w)
      (hsame : (w.advance config.tickRateHz).SameBeacons w')
      (hvouch : ∀ m ∈ (s.net.polling s.next w').rxMessages, ∀ st ∈ s.net.stations,
        st.Vouches auth m) :
      LockstepStep auth config s .tick (s.tick auth w')
  | send (s : Lockstep U) (i : ℕ) (m : Message ℚ) :
      LockstepStep auth config s (.send i m) ⟨s.net.sendAll i [.message m], s.next⟩
  | other (s : Lockstep U) (i : ℕ) (w w' : World ℚ U) (hw : s.net.worlds[i]? = some w)
      (hsame : w.SameBeacons w') :
      LockstepStep auth config s (.other i) ⟨s.net.setWorld i w', s.next⟩

/-! ### Who they are -/

namespace Station

variable {auth : Option SignatureScheme} {st : Station} {stations : List Station}

/-- The beacon is one of the station's. -/
structure Sends (auth : Option SignatureScheme) (st : Station) (sv : StateVector ℚ) : Prop where
  id : sv.id = st.identity
  senderPubkey : sv.senderPubkey = st.key auth
  verifies : ∀ scheme, auth = some scheme → sv.senderPubkey.present = true →
    sv.verifies scheme = true

/-- What a world sends is its station's. -/
theorem sends_stateVector (w : World ℚ U) (hcorrect : w.station.SignsCorrectly auth) :
    w.station.Sends auth (w.stateVector.signed auth w.keypair) := by
  refine ⟨StateVector.id_signed .., ?_, ?_⟩
  · unfold StateVector.signed key World.station
    cases auth with
    | none => rfl
    | some scheme => cases w.keypair <;> rfl
  · rintro scheme rfl hpresent
    cases hkp : w.keypair with
    | none =>
      -- without a key pair the beacon carries no key
      rw [hkp] at hpresent
      have habsent : ({} : IdentityKey).present = false := by decide
      exact absurd (habsent.symm.trans hpresent) (by decide)
    | some kp => exact StateVector.verifies_signed (hcorrect scheme kp rfl hkp) _

/-- The key is that of the station with this id, if there is one. -/
def Binds (auth : Option SignatureScheme) (stations : List Station) (hid : HierarchicalID)
    (key : IdentityKey) : Prop :=
  ∀ st ∈ stations, st.identity = hid → key = st.key auth

/-- With one station for each id, its beacons carry the key that is bound to it. -/
theorem Sends.binds_iff {sv : StateVector ℚ} (h : st.Sends auth sv)
    (hids : (stations.map Station.identity).Nodup) (hst : st ∈ stations) (key : IdentityKey) :
    Binds auth stations sv.id key ↔ key = sv.senderPubkey := by
  constructor
  · intro hbinds
    rw [h.senderPubkey]
    exact hbinds st hst h.id.symm
  · rintro rfl st' hst' hid
    rw [h.senderPubkey, List.inj_on_of_nodup_map hids hst hst' (h.id.symm.trans hid.symm)]

/-- A message that is honest about everybody pins no false key. -/
theorem pinsWithin_pinAdvertised {keys : PeerKeyRegistry} {m : Message ℚ}
    (h : BeaconInbox.PinsWithin (Binds auth stations) keys)
    (hdiscovery : DiscoverySystem.IsDiscovery m) (hm : ∀ st ∈ stations, st.Vouches auth m) :
    BeaconInbox.PinsWithin (Binds auth stations) (DiscoverySystem.pinAdvertised auth keys m) := by
  intro hid key hkey st hst hsame
  rcases DiscoverySystem.find_pinAdvertised_new hkey with hold | ⟨hhid, hadvertised⟩
  · exact h hid key hold st hst hsame
  · cases auth with
    | none => exact h hid key hkey st hst hsame
    | some scheme => exact hm st hst rfl hdiscovery (hhid.symm.trans hsame.symm) key hadvertised

end Station

end MithAtomas
