import MithAtomas.Core.CertificateChain
import MithAtomas.Identity.Ed25519

/-!
# Generated keys

Worlds whose key pairs come from `generate_identity_keypair`, and whose signatures are those of the
code (`ed25519`). Such a pair signs correctly (`Generated.correct`), so that the certificates of a
run are a chain that anybody can check with `verify_signature` (`certificates_verify`).
-/

namespace MithAtomas

open CheckedLoop Runs

/-- The key pair is one that `generate_identity_keypair` gives. -/
def Generated (kp : IdentityKeyPair) : Prop :=
  ∃ seed, generateIdentityKeypair seed = some kp

theorem Generated.correct {kp : IdentityKeyPair} (h : Generated kp) : ed25519.Correct kp := by
  obtain ⟨seed, hseed⟩ := h
  exact verify_sign hseed

/-- Any seed gives a pair. -/
theorem exists_generated (seed : Vector UInt8 32) :
    ∃ kp, generateIdentityKeypair seed = some kp ∧ Generated kp := by
  obtain ⟨kp, hkp, -⟩ := generateIdentityKeypair_spec seed
  exact ⟨kp, hkp, seed, hkp⟩

theorem length_serialiseCertPayload (prevId newId : HierarchicalID) (newKey : IdentityKey) :
    (serialiseCertPayload prevId newId newKey).length = 68 := by
  unfold serialiseCertPayload
  rw [List.length_append, List.length_append, UdpWire.length_putHid, UdpWire.length_putHid,
    (ByteCodec.bytes 32).length_put]
  rfl

variable {F U : Type} [FloatScalar F]

/-- `verify_signature` accepts the certificate of the reading under the key before it. -/
def Reading.Checks (r : Reading F) : Prop :=
  ∃ key cert, r.keyBefore = some key ∧ r.certificate = some cert ∧
    verifySignature key (some (serialiseCertPayload cert.prevId cert.newId cert.newKey)) 68
      (some cert.signatureByPrev.toList) 64 = some true

omit [FloatScalar F] in
theorem Continues.checks {id : HierarchicalID} {key : IdentityKey} {k : ℕ} {reading : Reading F}
    {cert : IdentityCertificate F} (h : Continues ed25519 id key k reading cert) :
    reading.Checks := by
  have hlength := length_serialiseCertPayload cert.prevId cert.newId cert.newKey
  refine ⟨key, cert, h.keyBefore, h.certificate, ?_⟩
  have hpayload : ∀ p, some (serialiseCertPayload cert.prevId cert.newId cert.newKey) = some p →
      68 ≤ p.length := by
    rintro _ ⟨⟩
    exact hlength.ge
  have hsignature : ∀ p, some cert.signatureByPrev.toList = some p → 64 ≤ p.length := by
    rintro _ ⟨⟩
    exact cert.signatureByPrev.length_toList.ge
  obtain ⟨b, hb, hiff⟩ := verifySignature_spec key (by norm_num) hpayload hsignature
  rw [hb, hiff.mpr ⟨rfl, nofun, _, cert.signatureByPrev, rfl, ?_, ?_⟩]
  · exact List.take_of_length_le cert.signatureByPrev.length_toList.le
  · rw [Option.getD_some, List.take_of_length_le hlength.le]
    exact h.verifies

omit [FloatScalar F] in
theorem CertificateChain.checks {id id' : HierarchicalID} {key key' : IdentityKey}
    {readings : List (Reading F)} (h : CertificateChain ed25519 id key readings id' key') :
    ∀ r ∈ readings, r.Checks := by
  induction h with
  | nil => exact fun r hr => absurd hr List.not_mem_nil
  | snoc hchain hcontinues ih =>
    intro r hr
    rcases List.mem_append.mp hr with hr | hr
    · exact ih r hr
    · rw [List.mem_singleton.mp hr]
      exact hcontinues.checks

/-- **Certificates that anybody can check.** In every run of a world whose key pairs are generated,
each rotation leaves a certificate that `verify_signature` accepts under the key that the world had
before, and they lead from the first identity and key to the present ones. -/
theorem certificates_verify (config : WorldConfig F) (identity : HierarchicalID)
    (keypair : IdentityKeyPair) (hgenerated : Generated keypair) (handlers : List MessageHandler)
    (beaconTransport messageTransport : Option Channel) (user : U) (policy : IdentityRotationPolicy)
    (periodS : F) {es : List ChronicleEvent} {c : Chronicle F U}
    (hrun : Run (ChronicleStep ed25519 Generated)
      (.start config identity keypair handlers beaconTransport messageTransport user policy periodS)
      es c) :
    (∃ kp, c.world.keypair = some kp ∧ Generated kp ∧ CertificateChain ed25519 identity
      keypair.publicKey c.readings c.world.identity kp.publicKey) ∧
    ∀ r ∈ c.readings, r.Checks := by
  obtain ⟨kp, hI⟩ : ∃ kp, ChainInv ed25519 Generated identity keypair.publicKey c kp := by
    refine hrun.invariant
      (I := fun c => ∃ kp, ChainInv ed25519 Generated identity keypair.publicKey c kp) ?_
      ⟨keypair, ChainInv.start hgenerated handlers beaconTransport messageTransport user policy
        periodS⟩
    rintro m e m' ⟨kp, hI⟩ hst
    exact hI.step (fun _ => Generated.correct) hst
  exact ⟨⟨kp, hI.keypair, hI.generated, hI.chain⟩, hI.chain.checks⟩

/-- A world that rotates once. -/
theorem one_rotation_verifies : ∃ c : Chronicle ℚ Unit, c.readings ≠ [] ∧
    ∀ r ∈ c.readings, r.Checks := by
  obtain ⟨kp, -, hkp⟩ := exists_generated (Vector.replicate 32 1)
  obtain ⟨next, -, hnext⟩ := exists_generated (Vector.replicate 32 2)
  let start : Chronicle ℚ Unit := .start .default ⟨1, ⟨Vector.replicate 16 1⟩⟩ kp [] none none ()
    .permanent 0
  have hrotate : ChronicleStep ed25519 Generated start .rotate _ :=
    .rotate start ⟨1, ⟨Vector.replicate 16 2⟩⟩ next hnext
  have hrun := Run.single hrotate
  refine ⟨_, ?_, (certificates_verify .default _ kp hkp [] none none () .permanent 0 hrun).2⟩
  unfold Chronicle.observe
  rw [RotatingWorld.rotationCount_rotateIdentity, if_neg (by simp)]
  exact List.append_ne_nil_of_right_ne_nil _ (List.cons_ne_nil _ _)

end MithAtomas
