import MithAtomas.Core.WorldFootprint
import MithAtomas.Framework.Runs

/-!
# Identity rotation

`World::rotate_identity` of `src/core/world.cpp` and the certificate of
`src/identity/identity_rotation.cpp`. A rotation replaces the id and, in signed mode, the key pair
together with it; the new key is certified by the old one. What `generate_identity_keypair` and
`HierarchicalID::generate` return is an argument.

`RotatingWorld.tick` is `World::tick`: the clock, the systems in the scheduler's order, and a
rotation under the `PERIODIC` policy when its period has passed. Between two ticks the mission may
rotate as well. `tick_run` takes a tick apart into the steps of `LifeStep`, so that what is kept by
every one of these, whole ticks keep.
-/

namespace MithAtomas

open ByteCodec UdpWire Runs

variable (F U : Type)

inductive IdentityRotationPolicy where
  | permanent
  | perMission
  | periodic
  | eventDriven
  deriving DecidableEq, Repr

/-- The proof that an identity continues another. -/
structure IdentityCertificate where
  prevId : HierarchicalID
  newId : HierarchicalID
  newKey : IdentityKey
  signatureByPrev : Signature
  issuedAtS : F
  deriving DecidableEq, Repr

/-- `serialise_cert_payload`: the bytes of a certificate that are signed. -/
def serialiseCertPayload (prevId newId : HierarchicalID) (newKey : IdentityKey) : List UInt8 :=
  putHid prevId ++ (putHid newId ++ (bytes 32).put newKey.publicKey)

/-- A world with what rotation works on. -/
structure RotatingWorld extends World F U where
  policy : IdentityRotationPolicy := .permanent
  rotationPeriodS : F
  lastCert : Option (IdentityCertificate F) := none
  rotationCount : UInt64 := 0
  lastRotationTimeS : F

variable {F U} [FloatScalar F]

namespace RotatingWorld

variable (auth : Option SignatureScheme) (newId : HierarchicalID) (next : IdentityKeyPair)
  (r : RotatingWorld F U)

/-- `rotate_identity`. -/
def rotateIdentity : RotatingWorld F U :=
  let certified : RotatingWorld F U :=
    match auth, r.keypair with
    | some scheme, some current =>
      { r with
        lastCert := some
          { prevId := r.identity
            newId
            newKey := next.publicKey
            signatureByPrev := scheme.sign current.privateKey
              (serialiseCertPayload r.identity newId next.publicKey)
            issuedAtS := r.context.elapsedTimeS }
        keypair := some next }
    -- nothing to sign with: no certificate, and the key stays
    | _, _ => r
  { certified with
    identity := newId
    lastRotationTimeS := r.context.elapsedTimeS
    rotationCount := r.rotationCount + 1 }

/-- The `PERIODIC` policy asks for a rotation. -/
def PeriodicDue : Prop :=
  r.policy = .periodic ∧ 0 < r.rotationPeriodS ∧
    r.rotationPeriodS ≤ r.context.elapsedTimeS - r.lastRotationTimeS

instance : Decidable r.PeriodicDue :=
  inferInstanceAs (Decidable (_ ∧ _))

/-- The scheduler's tick, over the systems in its order. -/
def tickSystems (order : List ShippedSystem) : RotatingWorld F U :=
  { r with toWorld := order.foldl (fun w s => s.tick auth w) r.toWorld }

/-- `tick`. -/
def tick (order : List ShippedSystem) (tickRateHz : F) : RotatingWorld F U :=
  let r : RotatingWorld F U := { r with toWorld := r.toWorld.advance tickRateHz }
  let r := r.tickSystems auth order
  if r.PeriodicDue then r.rotateIdentity auth newId next else r

variable {auth newId next r}

omit [FloatScalar F] in
@[simp] theorem identity_rotateIdentity : (r.rotateIdentity auth newId next).identity = newId := rfl

omit [FloatScalar F] in
/-- In signed mode the key pair changes with the id. -/
theorem keypair_rotateIdentity {scheme : SignatureScheme} {current : IdentityKeyPair}
    (h : r.keypair = some current) :
    (r.rotateIdentity (some scheme) newId next).keypair = some next := by
  unfold rotateIdentity
  simp only [h]

omit [FloatScalar F] in
/-- A rotation changes the id and the key pair of the world, and nothing else. -/
theorem toWorld_rotateIdentity (r : RotatingWorld F U) (auth : Option SignatureScheme)
    (newId : HierarchicalID) (next : IdentityKeyPair) :
    ∃ keypair, (r.rotateIdentity auth newId next).toWorld
      = { r.toWorld with identity := newId, keypair } := by
  unfold rotateIdentity
  split
  · exact ⟨some next, rfl⟩
  · exact ⟨r.keypair, rfl⟩

end RotatingWorld

/-! ### The systems and the identity -/

namespace ShippedSystem

/-- No system changes the id. -/
theorem identity_tick (s : ShippedSystem) (auth : Option SignatureScheme) (w : World F U) :
    (s.tick auth w).identity = w.identity :=
  s.tick_frame w (show Cell.identity ∉ s.touchesWrites by cases s <;> decide)

/-- Nor the key pair. -/
theorem keypair_tick (s : ShippedSystem) (auth : Option SignatureScheme) (w : World F U) :
    (s.tick auth w).keypair = w.keypair :=
  s.tick_frame w (show Cell.keypair ∉ s.touchesWrites by cases s <;> decide)

/-- Nor the handlers. -/
theorem messageHandlers_tick (s : ShippedSystem) (auth : Option SignatureScheme) (w : World F U) :
    (s.tick auth w).messageHandlers = w.messageHandlers :=
  s.tick_frame w (show Cell.messageHandlers ∉ s.touchesWrites by cases s <;> decide)

end ShippedSystem

/-! ### A tick, step by step -/

/-- What happens in a life of ticks and rotations. -/
inductive LifeEvent (F : Type) where
  | clock (tickRateHz : F)
  | tick (s : ShippedSystem)
  | rotate (newId : HierarchicalID) (next : IdentityKeyPair)

/-- One step of it. -/
inductive LifeStep (auth : Option SignatureScheme) :
    RotatingWorld F U → LifeEvent F → RotatingWorld F U → Prop
  | clock (r : RotatingWorld F U) (tickRateHz : F) :
      LifeStep auth r (.clock tickRateHz) { r with toWorld := r.toWorld.advance tickRateHz }
  | tick (r : RotatingWorld F U) (s : ShippedSystem) :
      LifeStep auth r (.tick s) { r with toWorld := s.tick auth r.toWorld }
  | rotate (r : RotatingWorld F U) (newId : HierarchicalID) (next : IdentityKeyPair) :
      LifeStep auth r (.rotate newId next) (r.rotateIdentity auth newId next)

/-- The systems of a tick, one after the other. -/
theorem tickSystems_run (auth : Option SignatureScheme) (r : RotatingWorld F U)
    (order : List ShippedSystem) :
    Run (LifeStep auth) r (order.map LifeEvent.tick) (r.tickSystems auth order) := by
  induction order using List.reverseRecOn with
  | nil => exact Run.nil
  | append_singleton order s ih =>
    have hlast : r.tickSystems auth (order ++ [s])
        = { r.tickSystems auth order with
            toWorld := s.tick auth (r.tickSystems auth order).toWorld } := by
      unfold RotatingWorld.tickSystems
      rw [List.foldl_concat]
    rw [List.map_append, List.map_singleton, hlast]
    exact Run.snoc ih (LifeStep.tick _ s)

/-- **A tick is a run**: the clock and the systems, and then a rotation or none. -/
theorem tick_run (auth : Option SignatureScheme) (r : RotatingWorld F U)
    (order : List ShippedSystem) (tickRateHz : F) (newId : HierarchicalID)
    (next : IdentityKeyPair) :
    ∃ r', Run (LifeStep auth) r ([.clock tickRateHz] ++ order.map LifeEvent.tick) r' ∧
      (r.tick auth newId next order tickRateHz = r' ∨
        r.tick auth newId next order tickRateHz = r'.rotateIdentity auth newId next) := by
  have hclock : LifeStep auth r (.clock tickRateHz) _ := LifeStep.clock r tickRateHz
  refine ⟨_, (Run.single hclock).trans (tickSystems_run auth _ order), ?_⟩
  unfold RotatingWorld.tick
  simp only
  split
  · exact .inr rfl
  · exact .inl rfl

end MithAtomas
