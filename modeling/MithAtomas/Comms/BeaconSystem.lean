import MithAtomas.Comms.PeerKeyRegistry
import MithAtomas.Comms.Transport
import MithAtomas.Comms.UdpWire
import MithAtomas.Comms.NeighbourTable
import MithAtomas.Core.QueueComponents

/-!
# Beacons

The parts of `src/comms/beacon_system.cpp`: the beacon that is sent when its period has passed
(`BeaconSystem.emit`), what is done with a beacon that arrives (`BeaconInbox.receive`), and the
message router, which offers a message to the handlers and leaves to the mission what none of them
claims (`route`). `World` puts them together.

A received beacon is the robot's own echo, or it is rejected, or it is accepted and goes into the
neighbour table (`table_receive`). In signed mode a beacon with a key is accepted only if its
signature verifies and the registry holds that key for its id afterwards; a beacon without a key is
not checked (`Accepts`).
-/

namespace MithAtomas

open UdpWire

variable (F : Type)

structure BeaconSystem where
  beaconPeriodS : F
  neighbourTimeoutS : F
  timeSinceLastBeaconS : F
  rejectedBeacons : UInt64 := 0
  deriving DecidableEq, Repr

/-- What receiving a beacon works on. -/
structure BeaconInbox where
  table : NeighbourTable F
  keys : PeerKeyRegistry
  rejectedBeacons : UInt64

variable {F} [FloatScalar F]

/-- The beacon with its floats as bit patterns. -/
def StateVector.bits (sv : StateVector F) : StateVector UInt32 where
  id := sv.id
  position := ⟨FloatScalar.toBits sv.position.x, FloatScalar.toBits sv.position.y,
    FloatScalar.toBits sv.position.z⟩
  velocity := ⟨FloatScalar.toBits sv.velocity.vx, FloatScalar.toBits sv.velocity.vy,
    FloatScalar.toBits sv.velocity.vz⟩
  health := sv.health
  role := sv.role
  state := sv.state
  tick := sv.tick
  syncTimeS := FloatScalar.toBits sv.syncTimeS
  senderPubkey := sv.senderPubkey
  signature := sv.signature

/-- The bytes of a beacon that are signed. -/
def StateVector.signedBytes (sv : StateVector F) : List UInt8 :=
  serialiseBeaconSignedPayload sv.bits BEACON_SIGNED_PREFIX_BYTES

/-- The beacon's signature verifies under the key it carries. -/
def StateVector.verifies (scheme : SignatureScheme) (b : StateVector F) : Bool :=
  scheme.verify b.senderPubkey b.signedBytes b.signature

/-! ### Sending -/

/-- The key and the signature of a beacon, in signed mode. -/
def StateVector.signed (auth : Option SignatureScheme) (keypair : Option IdentityKeyPair)
    (sv : StateVector F) : StateVector F :=
  match auth, keypair with
  | some scheme, some kp =>
    let sv := { sv with senderPubkey := kp.publicKey }
    { sv with signature := scheme.sign kp.privateKey sv.signedBytes }
  | _, _ => sv

/-- The second step of `tick`, with the beacons it sends. -/
def BeaconSystem.emit (auth : Option SignatureScheme) (keypair : Option IdentityKeyPair)
    (beaconTransport : Option Channel) (sv : StateVector F) (deltaTime : F)
    (sys : BeaconSystem F) : BeaconSystem F × List (StateVector F) :=
  let sys := { sys with timeSinceLastBeaconS := sys.timeSinceLastBeaconS + deltaTime }
  if 0 < sys.beaconPeriodS ∧ sys.beaconPeriodS ≤ sys.timeSinceLastBeaconS ∧
      usable beaconTransport then
    ({ sys with timeSinceLastBeaconS := 0 }, [sv.signed auth keypair])
  else (sys, [])

/-! ### Receiving beacons -/

namespace BeaconInbox

/-- The body of the third step's loop. -/
def receive (auth : Option SignatureScheme) (selfId : HierarchicalID) (now : F)
    (inbox : BeaconInbox F) (b : StateVector F) : BeaconInbox F :=
  -- skip our own echo
  if b.id = selfId then inbox
  else
    let upserted (keys : PeerKeyRegistry) : BeaconInbox F :=
      { inbox with keys, table := inbox.table.upsert b now none }
    match auth with
    | none => upserted inbox.keys
    | some scheme =>
      if b.senderPubkey.present then
        if b.verifies scheme then
          let (keys, pinned) := inbox.keys.tryPin b.id b.senderPubkey
          if pinned then upserted keys
          else { inbox with keys, rejectedBeacons := inbox.rejectedBeacons + 1 }
        else { inbox with rejectedBeacons := inbox.rejectedBeacons + 1 }
      else upserted inbox.keys

/-- In signed mode, when a beacon with an id that is pinned to `key` goes into the table. -/
def Accepts (scheme : SignatureScheme) (key : IdentityKey) (b : StateVector F) : Prop :=
  (b.senderPubkey = key ∧ b.verifies scheme = true) ∨ b.senderPubkey = {}

variable {scheme : SignatureScheme} {selfId hid : HierarchicalID} {now : F}
  {inbox : BeaconInbox F} {key : IdentityKey}

/-- A pin stays. -/
theorem find_receive (h : inbox.keys.find hid = some key) (b : StateVector F) :
    (receive (some scheme) selfId now inbox b).keys.find hid = some key := by
  unfold receive
  by_cases hself : b.id = selfId
  · rw [if_pos hself]
    exact h
  · rw [if_neg hself]
    by_cases hpresent : b.senderPubkey.present = true
    · by_cases hverify : b.verifies scheme = true
      · simp only [hpresent, hverify, if_true]
        split <;> exact PeerKeyRegistry.find_tryPin_of_find h
      · simp only [hpresent, hverify, if_true, if_false, Bool.false_eq_true]
        exact h
    · simp only [hpresent, if_false, Bool.false_eq_true]
      exact h

/-- **One beacon**, in signed mode: the table stays, or the beacon goes into it; and if its id is
pinned, it has been accepted under the pinned key. -/
theorem table_receive (scheme : SignatureScheme) (selfId : HierarchicalID) (now : F)
    (inbox : BeaconInbox F) (b : StateVector F) :
    (receive (some scheme) selfId now inbox b).table = inbox.table ∨
    ((receive (some scheme) selfId now inbox b).table = inbox.table.upsert b now none ∧
      ∀ key, inbox.keys.find b.id = some key → Accepts scheme key b) := by
  unfold receive
  by_cases hself : b.id = selfId
  · rw [if_pos hself]
    exact .inl rfl
  · rw [if_neg hself]
    by_cases hpresent : b.senderPubkey.present = true
    · by_cases hverify : b.verifies scheme = true
      · simp only [hpresent, hverify, if_true]
        by_cases hpin : (inbox.keys.tryPin b.id b.senderPubkey).2 = true
        · simp only [hpin, if_true]
          refine .inr ⟨trivial, fun key hkey => .inl ⟨?_, hverify⟩⟩
          -- the pin has succeeded, so the key that was there is the beacon's
          rw [PeerKeyRegistry.tryPin_of_find hkey] at hpin
          exact (of_decide_eq_true hpin).symm
        · simp only [hpin, if_false, Bool.false_eq_true]
          exact .inl trivial
      · simp only [hpresent, hverify, if_true, if_false, Bool.false_eq_true]
        exact .inl trivial
    · simp only [hpresent, if_false, Bool.false_eq_true]
      refine .inr ⟨trivial, fun _ _ => .inr ?_⟩
      exact IdentityKey.present_eq_false_iff.mp (Bool.not_eq_true _ ▸ hpresent)

/-- In either mode: the table stays, or the beacon, which is not an echo, goes into it. -/
theorem table_receive_or (auth : Option SignatureScheme) (b : StateVector F) :
    (receive auth selfId now inbox b).table = inbox.table ∨
    (b.id ≠ selfId ∧
      (receive auth selfId now inbox b).table = inbox.table.upsert b now none) := by
  by_cases hself : b.id = selfId
  · unfold receive
    rw [if_pos hself]
    exact .inl rfl
  · cases auth with
    | none =>
      unfold receive
      rw [if_neg hself]
      exact .inr ⟨hself, rfl⟩
    | some scheme => exact (table_receive scheme selfId now inbox b).imp_right fun h => ⟨hself, h.1⟩

theorem distinct_receive (auth : Option SignatureScheme) (h : inbox.table.Distinct)
    (b : StateVector F) : (receive auth selfId now inbox b).table.Distinct := by
  rcases table_receive_or auth b with hstay | ⟨-, hupsert⟩
  · rw [hstay]
    exact h
  · rw [hupsert]
    exact h.upsert b now none

end BeaconInbox

/-! ### Routing messages -/

/-- `for (const auto& h : hs) if (h(m)) { claimed = true; break; }`, with `claimed`. -/
def offer {σ : Type} (handlers : List (σ → Message F → σ × Bool)) (s : σ) (m : Message F) :
    σ × Bool :=
  match handlers with
  | [] => (s, false)
  | h :: hs =>
    let (s, claimed) := h s m
    if claimed then (s, true) else offer hs s m

/-- The body of the fourth step's loop: an unclaimed message goes to the mission's buffer. -/
def route {σ : Type} (handlers : List (σ → Message F → σ × Bool))
    (work : σ × CommBufferComponent F) (m : Message F) : σ × CommBufferComponent F :=
  let (s, cb) := work
  let (s, claimed) := offer handlers s m
  if claimed then (s, cb) else (s, { cb with queue := (cb.queue.push m).1 })

omit [FloatScalar F] in
/-- What every handler keeps, the router keeps. -/
theorem offer_invariant {σ : Type} {I : σ → Prop} {handlers : List (σ → Message F → σ × Bool)}
    {m : Message F} (hkeep : ∀ h ∈ handlers, ∀ s, I s → I (h s m).1) {s : σ} (hs : I s) :
    I (offer handlers s m).1 := by
  induction handlers generalizing s with
  | nil => exact hs
  | cons h handlers ih =>
    have hone := hkeep h List.mem_cons_self s hs
    unfold offer
    cases hclaimed : (h s m).2 with
    | true => simpa [hclaimed] using hone
    | false =>
      simpa [hclaimed] using ih (fun h' hh' => hkeep h' (List.mem_cons_of_mem _ hh')) hone

omit [FloatScalar F] in
theorem route_invariant {σ : Type} {I : σ → Prop} {handlers : List (σ → Message F → σ × Bool)}
    {m : Message F} (hkeep : ∀ h ∈ handlers, ∀ s, I s → I (h s m).1)
    {work : σ × CommBufferComponent F} (hs : I work.1) : I (route handlers work m).1 := by
  have hone := offer_invariant hkeep hs
  unfold route
  cases hclaimed : (offer handlers work.1 m).2 with
  | true => simpa [hclaimed] using hone
  | false => simpa [hclaimed] using hone

end MithAtomas
