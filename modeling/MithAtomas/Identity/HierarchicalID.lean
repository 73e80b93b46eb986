import Mathlib

/-!
# Identities

`include/mith/identity/uuid.h`, `hierarchical_id.h` and the key types of `identity_auth.h`. A
`HierarchicalID` is a swarm number and a 128-bit unit id; `BROADCAST_ID` is the one with both zero,
and any id whose unit id is nil counts as a broadcast address.
-/

namespace MithAtomas

/-- `UUID`: 16 bytes. -/
structure UUID where
  bytes : Vector UInt8 16
  deriving DecidableEq, Repr

/-- `UUID{}`: all bytes zero. -/
def UUID.nil : UUID := ⟨Vector.replicate 16 0⟩

/-- `UUID::is_nil`. -/
def UUID.isNil (u : UUID) : Bool :=
  u.bytes.toList.all (· == 0)

abbrev SwarmID := UInt16

structure HierarchicalID where
  swarmId : SwarmID := 0
  unitId : UUID := UUID.nil
  deriving DecidableEq, Repr

/-- `BROADCAST_ID`. -/
def broadcastID : HierarchicalID := {}

/-- `is_broadcast`. -/
def isBroadcast (id : HierarchicalID) : Bool :=
  id.unitId.isNil

/-- `IdentityKey`: an Ed25519 public key. -/
structure IdentityKey where
  publicKey : Vector UInt8 32 := Vector.replicate 32 0
  deriving DecidableEq, Repr

end MithAtomas
