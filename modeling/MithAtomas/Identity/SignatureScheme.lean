import MithAtomas.Identity.HierarchicalID

/-!
# Signatures

The surface of `include/mith/identity/ed25519.h`. Signing and verifying are a parameter of the model
(`SignatureScheme`): nothing is assumed of them here. A build without `MITH_AUTH_ENABLED` has none.
-/

namespace MithAtomas

abbrev Signature := Vector UInt8 64

/-- `IdentityPrivateKey`. -/
structure IdentityPrivateKey where
  bytes : Vector UInt8 64
  deriving DecidableEq, Repr

structure IdentityKeyPair where
  publicKey : IdentityKey
  privateKey : IdentityPrivateKey
  deriving DecidableEq, Repr

structure SignatureScheme where
  /-- `sign_payload` -/
  sign : IdentityPrivateKey → List UInt8 → Signature
  /-- `verify_signature` -/
  verify : IdentityKey → List UInt8 → Signature → Bool

/-- Some byte of the key is not zero: the sender means to sign. -/
def IdentityKey.present (key : IdentityKey) : Bool :=
  key.publicKey.toList.any fun byte => byte != 0

/-- A key that is not present is the default one. -/
theorem IdentityKey.present_eq_false_iff {key : IdentityKey} : key.present = false ↔ key = {} := by
  obtain ⟨publicKey⟩ := key
  unfold present
  constructor
  · intro h
    have hall : ∀ b ∈ publicKey.toList, b = 0 := by
      intro b hb
      have hb := List.any_eq_false.mp h b hb
      simpa using hb
    have hlist : publicKey.toList = List.replicate 32 0 :=
      List.eq_replicate_iff.mpr ⟨publicKey.length_toList, hall⟩
    have hvec : publicKey = Vector.replicate 32 0 := by
      apply Vector.toList_inj.mp
      rw [hlist]
      rfl
    rw [hvec]
  · intro h
    rw [h]
    rfl

end MithAtomas
