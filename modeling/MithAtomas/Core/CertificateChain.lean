import MithAtomas.Comms.HonestBeacon
import MithAtomas.Comms.UdpWireFaithful
import MithAtomas.Core.IdentityRotation

/-!
# The chain of certificates

In signed mode every rotation leaves a certificate, signed with the key that was in force until
then. A `Chronicle` is a world with what has been read from it after each rotation: the certificate,
the identity, the public key and the count. `certificate_chain` says that the readings of every run
form a chain from the identity and the key of `init` (`CertificateChain`), however ticks, explicit
rotations and other changes of the world follow each other. The keys stand for those of generated
pairs, for which the scheme is correct.
-/

namespace MithAtomas

open ByteCodec UdpWire Runs

/-! ### The payload -/

/-- The three fields of a certificate that are signed can be read back from the payload. -/
theorem serialiseCertPayload_inj {prevId prevId' newId newId' : HierarchicalID}
    {newKey newKey' : IdentityKey}
    (h : serialiseCertPayload prevId newId newKey = serialiseCertPayload prevId' newId' newKey') :
    prevId = prevId' ∧ newId = newId' ∧ newKey = newKey' := by
  unfold serialiseCertPayload at h
  obtain ⟨hprev, h⟩ := List.append_inj h (by rw [length_putHid, length_putHid])
  obtain ⟨hnew, hkey⟩ := List.append_inj h (by rw [length_putHid, length_putHid])
  have hkey' : newKey.publicKey = newKey'.publicKey := (bytes 32).put_injective hkey
  exact ⟨hid.put_injective hprev, hid.put_injective hnew, congrArg IdentityKey.mk hkey'⟩

variable (F U : Type)

/-- What is read after a rotation, and the key that was in force before it. -/
structure Reading where
  keyBefore : Option IdentityKey
  certificate : Option (IdentityCertificate F)
  identity : HierarchicalID
  key : Option IdentityKey
  rotationCount : UInt64
  deriving DecidableEq, Repr

/-- A world, and the readings so far. -/
structure Chronicle where
  world : RotatingWorld F U
  readings : List (Reading F) := []

inductive ChronicleEvent where
  | tick
  | rotate
  /-- anything else that happens to the world -/
  | other
  deriving DecidableEq, Repr

variable {F U} [FloatScalar F]

/-- `tick` over any systems, the mission's own ones among them. -/
def RotatingWorld.tickAll (auth : Option SignatureScheme) (newId : HierarchicalID)
    (next : IdentityKeyPair) (r : RotatingWorld F U) (systems : List (System (World F U)))
    (tickRateHz : F) : RotatingWorld F U :=
  let r : RotatingWorld F U := { r with toWorld := r.toWorld.advance tickRateHz }
  let r : RotatingWorld F U := { r with toWorld := systems.foldl (fun w s => s.tick w) r.toWorld }
  if r.PeriodicDue then r.rotateIdentity auth newId next else r

theorem RotatingWorld.tick_eq_tickAll (auth : Option SignatureScheme) (newId : HierarchicalID)
    (next : IdentityKeyPair) (r : RotatingWorld F U) (order : List ShippedSystem) (tickRateHz : F) :
    r.tick auth newId next order tickRateHz
      = r.tickAll auth newId next (order.map (ShippedSystem.system auth)) tickRateHz := by
  unfold tick tickAll tickSystems
  simp only [List.foldl_map]
  rfl

omit [FloatScalar F] in
/-- The certificate of a rotation. -/
def RotatingWorld.certificate (r : RotatingWorld F U) (scheme : SignatureScheme)
    (current : IdentityKeyPair) (newId : HierarchicalID) (next : IdentityKeyPair) :
    IdentityCertificate F where
  prevId := r.identity
  newId
  newKey := next.publicKey
  signatureByPrev := scheme.sign current.privateKey
    (serialiseCertPayload r.identity newId next.publicKey)
  issuedAtS := r.context.elapsedTimeS

omit [FloatScalar F] in
theorem RotatingWorld.lastCert_rotateIdentity {scheme : SignatureScheme}
    {current next : IdentityKeyPair} {newId : HierarchicalID} {r : RotatingWorld F U}
    (h : r.keypair = some current) :
    (r.rotateIdentity (some scheme) newId next).lastCert
      = some (r.certificate scheme current newId next) := by
  unfold rotateIdentity
  simp only [h]
  rfl

omit [FloatScalar F] in
theorem RotatingWorld.rotationCount_rotateIdentity (auth : Option SignatureScheme)
    (newId : HierarchicalID) (next : IdentityKeyPair) (r : RotatingWorld F U) :
    (r.rotateIdentity auth newId next).rotationCount = r.rotationCount + 1 := by
  unfold rotateIdentity
  split <;> rfl

/-- The system has no part in the identity and its keys. -/
def System.KeepsIdentity (s : System (World F U)) : Prop :=
  ∀ w, (s.tick w).identity = w.identity ∧ (s.tick w).keypair = w.keypair

theorem ShippedSystem.system_keepsIdentity (auth : Option SignatureScheme) (s : ShippedSystem) :
    (s.system auth : System (World F U)).KeepsIdentity :=
  fun w => ⟨s.identity_tick auth w, s.keypair_tick auth w⟩

namespace Chronicle

omit [FloatScalar F] in
/-- A reading is taken when the count has changed. -/
def observe (c : Chronicle F U) (r : RotatingWorld F U) : Chronicle F U where
  world := r
  readings :=
    if r.rotationCount = c.world.rotationCount then c.readings
    else c.readings ++
      [{ keyBefore := c.world.keypair.map IdentityKeyPair.publicKey
         certificate := r.lastCert
         identity := r.identity
         key := r.keypair.map IdentityKeyPair.publicKey
         rotationCount := r.rotationCount }]

/-- A world after `init`, in signed mode. -/
def start (config : WorldConfig F) (identity : HierarchicalID) (keypair : IdentityKeyPair)
    (handlers : List MessageHandler) (beaconTransport messageTransport : Option Channel) (user : U)
    (policy : IdentityRotationPolicy) (periodS : F) : Chronicle F U where
  world :=
    { toWorld := World.init config identity (some keypair) handlers beaconTransport
        messageTransport user
      policy
      rotationPeriodS := periodS
      lastRotationTimeS := 0 }

end Chronicle

/-- One call of the world; the key pairs that a rotation generates satisfy `Generated`. -/
inductive ChronicleStep (scheme : SignatureScheme) (Generated : IdentityKeyPair → Prop) :
    Chronicle F U → ChronicleEvent → Chronicle F U → Prop
  | tick (c : Chronicle F U) (systems : List (System (World F U))) (tickRateHz : F)
      (newId : HierarchicalID) (next : IdentityKeyPair)
      (hkeeps : ∀ s ∈ systems, s.KeepsIdentity) (hnext : Generated next) :
      ChronicleStep scheme Generated c .tick
        (c.observe (c.world.tickAll (some scheme) newId next systems tickRateHz))
  | rotate (c : Chronicle F U) (newId : HierarchicalID) (next : IdentityKeyPair)
      (hnext : Generated next) :
      ChronicleStep scheme Generated c .rotate
        (c.observe (c.world.rotateIdentity (some scheme) newId next))
  | other (c : Chronicle F U) (w : World F U) (hidentity : w.identity = c.world.identity)
      (hkeypair : w.keypair = c.world.keypair) :
      ChronicleStep scheme Generated c .other (c.observe { c.world with toWorld := w })

/-! ### Chains -/

/-- The `k`-th reading continues the identity `id` with the key `key`. -/
structure Continues (scheme : SignatureScheme) (id : HierarchicalID) (key : IdentityKey) (k : ℕ)
    (reading : Reading F) (cert : IdentityCertificate F) : Prop where
  certificate : reading.certificate = some cert
  keyBefore : reading.keyBefore = some key
  prevId : cert.prevId = id
  verifies : scheme.verify key (serialiseCertPayload cert.prevId cert.newId cert.newKey)
    cert.signatureByPrev = true
  identity : reading.identity = cert.newId
  key : reading.key = some cert.newKey
  rotationCount : reading.rotationCount = UInt64.ofNat k

/-- **A chain of certificates** from `id` and `key` to another id and another key: each continues
what the one before it has introduced. -/
inductive CertificateChain (scheme : SignatureScheme) (id : HierarchicalID) (key : IdentityKey) :
    List (Reading F) → HierarchicalID → IdentityKey → Prop
  | nil : CertificateChain scheme id key [] id key
  | snoc {readings : List (Reading F)} {id' : HierarchicalID} {key' : IdentityKey}
      {reading : Reading F} {cert : IdentityCertificate F} :
      CertificateChain scheme id key readings id' key' →
      Continues scheme id' key' (readings.length + 1) reading cert →
      CertificateChain scheme id key (readings ++ [reading]) cert.newId cert.newKey

section Invariant

variable {scheme : SignatureScheme} {Generated : IdentityKeyPair → Prop} {id : HierarchicalID}
  {key : IdentityKey} {c c' : Chronicle F U}

/-- The readings are a chain, and it ends at what the world holds now. -/
structure ChainInv (scheme : SignatureScheme) (Generated : IdentityKeyPair → Prop)
    (id : HierarchicalID) (key : IdentityKey) (c : Chronicle F U)
    (kp : IdentityKeyPair) : Prop where
  keypair : c.world.keypair = some kp
  generated : Generated kp
  chain : CertificateChain scheme id key c.readings c.world.identity kp.publicKey
  rotationCount : c.world.rotationCount = UInt64.ofNat c.readings.length
  lastCert : c.world.lastCert = c.readings.getLast?.bind Reading.certificate

omit [FloatScalar F] in
/-- What changes neither the identity nor the keys leaves no reading. -/
theorem ChainInv.keep {kp : IdentityKeyPair} (h : ChainInv scheme Generated id key c kp)
    {r : RotatingWorld F U} (hidentity : r.identity = c.world.identity)
    (hkeypair : r.keypair = c.world.keypair) (hcount : r.rotationCount = c.world.rotationCount)
    (hcert : r.lastCert = c.world.lastCert) :
    ChainInv scheme Generated id key (c.observe r) kp := by
  unfold Chronicle.observe
  rw [if_pos hcount]
  exact
    { keypair := hkeypair.trans h.keypair
      generated := h.generated
      chain := hidentity ▸ h.chain
      rotationCount := hcount.trans h.rotationCount
      lastCert := hcert.trans h.lastCert }

omit [FloatScalar F] in
/-- **A rotation continues the chain.** -/
theorem ChainInv.rotate {kp next : IdentityKeyPair} (h : ChainInv scheme Generated id key c kp)
    (hcorrect : scheme.Correct kp) (hnext : Generated next) {r : RotatingWorld F U}
    (hidentity : r.identity = c.world.identity) (hkeypair : r.keypair = c.world.keypair)
    (hcount : r.rotationCount = c.world.rotationCount) (newId : HierarchicalID) :
    ChainInv scheme Generated id key (c.observe (r.rotateIdentity (some scheme) newId next))
      next := by
  have hkp : r.keypair = some kp := hkeypair.trans h.keypair
  set rotated := r.rotateIdentity (some scheme) newId next with hrotated
  have hcert : rotated.lastCert = some (r.certificate scheme kp newId next) :=
    RotatingWorld.lastCert_rotateIdentity hkp
  have hnextkp : rotated.keypair = some next := RotatingWorld.keypair_rotateIdentity hkp
  have hid : rotated.identity = newId := RotatingWorld.identity_rotateIdentity
  have hcount' : rotated.rotationCount = c.world.rotationCount + 1 := by
    rw [hrotated, RotatingWorld.rotationCount_rotateIdentity, hcount]
  have hk : rotated.rotationCount = UInt64.ofNat (c.readings.length + 1) := by
    rw [hcount', h.rotationCount, UInt64.ofNat_add]
    rfl
  -- the count has changed, even if it has wrapped, so the rotation is read
  have hchanged : rotated.rotationCount ≠ c.world.rotationCount := by
    rw [hcount']
    simp
  unfold Chronicle.observe
  rw [if_neg hchanged]
  have hcontinues : Continues scheme c.world.identity kp.publicKey (c.readings.length + 1)
      { keyBefore := c.world.keypair.map IdentityKeyPair.publicKey
        certificate := rotated.lastCert
        identity := rotated.identity
        key := rotated.keypair.map IdentityKeyPair.publicKey
        rotationCount := rotated.rotationCount } (r.certificate scheme kp newId next) :=
    { certificate := hcert
      keyBefore := congrArg (Option.map IdentityKeyPair.publicKey) h.keypair
      prevId := hidentity
      verifies := hcorrect _
      identity := hid
      key := congrArg (Option.map IdentityKeyPair.publicKey) hnextkp
      rotationCount := hk }
  exact
    { keypair := hnextkp
      generated := hnext
      chain := h.chain.snoc hcontinues
      rotationCount := by rw [List.length_append]; exact hk
      lastCert := by simp }

/-- Any call keeps the chain. -/
theorem ChainInv.step {kp : IdentityKeyPair} {e : ChronicleEvent}
    (hcorrect : ∀ kp, Generated kp → scheme.Correct kp)
    (h : ChainInv scheme Generated id key c kp) (hst : ChronicleStep scheme Generated c e c') :
    ∃ kp', ChainInv scheme Generated id key c' kp' := by
  cases hst with
  | tick systems tickRateHz newId next hkeeps hnext =>
    -- until the rotation a tick works on the rest of the world
    have hsystems : ∀ w : World F U,
        (systems.foldl (fun w s => s.tick w) w).identity = w.identity ∧
          (systems.foldl (fun w s => s.tick w) w).keypair = w.keypair := by
      intro w
      refine List.foldlRecOn (motive := fun v : World F U =>
        v.identity = w.identity ∧ v.keypair = w.keypair) systems _ ⟨rfl, rfl⟩ fun v hv s hs => ?_
      exact ⟨(hkeeps s hs v).1.trans hv.1, (hkeeps s hs v).2.trans hv.2⟩
    obtain ⟨hidentity, hkeypair⟩ := hsystems (c.world.toWorld.advance tickRateHz)
    let r : RotatingWorld F U := { c.world with
      toWorld := systems.foldl (fun w s => s.tick w) (c.world.toWorld.advance tickRateHz) }
    have htick : c.world.tickAll (some scheme) newId next systems tickRateHz
        = if r.PeriodicDue then r.rotateIdentity (some scheme) newId next else r := rfl
    rw [htick]
    split
    · exact ⟨next,
        h.rotate (r := r) (hcorrect kp h.generated) hnext hidentity hkeypair rfl newId⟩
    · exact ⟨kp, h.keep (r := r) hidentity hkeypair rfl rfl⟩
  | rotate newId next hnext =>
    exact ⟨next, h.rotate (hcorrect kp h.generated) hnext rfl rfl rfl newId⟩
  | other w hidentity hkeypair => exact ⟨kp, h.keep hidentity hkeypair rfl rfl⟩

theorem ChainInv.start {config : WorldConfig F} {keypair : IdentityKeyPair}
    (hgenerated : Generated keypair) (handlers : List MessageHandler)
    (beaconTransport messageTransport : Option Channel) (user : U)
    (policy : IdentityRotationPolicy) (periodS : F) :
    ChainInv scheme Generated id keypair.publicKey
      (.start config id keypair handlers beaconTransport messageTransport user policy periodS)
      keypair where
  keypair := rfl
  generated := hgenerated
  chain := .nil
  rotationCount := rfl
  lastCert := rfl

/-- **The certificate chain.** The readings of a run lead from the identity and the key of `init` to
those that the world has at its end, and the payload of a certificate determines its fields. -/
theorem certificate_chain (scheme : SignatureScheme) (Generated : IdentityKeyPair → Prop)
    (hcorrect : ∀ kp, Generated kp → scheme.Correct kp) (config : WorldConfig F)
    (identity : HierarchicalID) (keypair : IdentityKeyPair) (hgenerated : Generated keypair)
    (handlers : List MessageHandler) (beaconTransport messageTransport : Option Channel) (user : U)
    (policy : IdentityRotationPolicy) (periodS : F) {es : List ChronicleEvent} {c : Chronicle F U}
    (hrun : Run (ChronicleStep scheme Generated)
      (.start config identity keypair handlers beaconTransport messageTransport user policy periodS)
      es c) :
    (∃ kp, c.world.keypair = some kp ∧
      CertificateChain scheme identity keypair.publicKey c.readings c.world.identity kp.publicKey) ∧
    c.world.rotationCount = UInt64.ofNat c.readings.length ∧
    c.world.lastCert = c.readings.getLast?.bind Reading.certificate ∧
    ∀ prevId prevId' newId newId' newKey newKey',
      serialiseCertPayload prevId newId newKey = serialiseCertPayload prevId' newId' newKey' →
      prevId = prevId' ∧ newId = newId' ∧ newKey = newKey' := by
  obtain ⟨kp, hI⟩ : ∃ kp, ChainInv scheme Generated identity keypair.publicKey c kp := by
    refine hrun.invariant
      (I := fun c => ∃ kp, ChainInv scheme Generated identity keypair.publicKey c kp) ?_
      ⟨keypair, ChainInv.start hgenerated handlers beaconTransport messageTransport user policy
        periodS⟩
    rintro m e m' ⟨kp, hI⟩ hst
    exact hI.step hcorrect hst
  exact ⟨⟨kp, hI.keypair, hI.chain⟩, hI.rotationCount, hI.lastCert,
    fun _ _ _ _ _ _ => serialiseCertPayload_inj⟩

end Invariant

section Examples

/-- A key pair made of one byte. -/
def uniformKeyPair (b : UInt8) : IdentityKeyPair :=
  ⟨⟨Vector.replicate 32 b⟩, ⟨Vector.replicate 64 b⟩⟩

/-- A world that rotates under the `PERIODIC` policy in its first tick, and then once more. -/
theorem two_rotations_chain :
    ∃ c : Chronicle ℚ Unit, c.readings.length = 2 ∧ ∃ kp, c.world.keypair = some kp ∧
      CertificateChain stampScheme (⟨1, ⟨Vector.replicate 16 1⟩⟩ : HierarchicalID)
        (uniformKeyPair 1).publicKey c.readings c.world.identity kp.publicKey := by
  let start : Chronicle ℚ Unit := .start .default ⟨1, ⟨Vector.replicate 16 1⟩⟩ (uniformKeyPair 1) []
    none none () .periodic (1 / 20)
  let ticked := start.observe (start.world.tickAll (some stampScheme) ⟨1, ⟨Vector.replicate 16 2⟩⟩
    (uniformKeyPair 2) [] 20)
  let rotated := ticked.observe (ticked.world.rotateIdentity (some stampScheme)
    ⟨1, ⟨Vector.replicate 16 3⟩⟩ (uniformKeyPair 3))
  have hrun : Run (ChronicleStep stampScheme fun _ => True) start [.tick, .rotate] rotated :=
    (Run.single (.tick start [] 20 _ _ (fun _ h => absurd h List.not_mem_nil) trivial)).snoc
      (.rotate ticked _ _ trivial)
  have hlength : rotated.readings.length = 2 := by decide +kernel
  exact ⟨rotated, hlength, (certificate_chain stampScheme (fun _ => True)
    (fun kp _ => stampScheme_correct kp) .default _ _ trivial _ _ _ _ _ _ hrun).1⟩

end Examples

end MithAtomas
