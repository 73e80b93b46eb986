import MithAtomas.Core.Components
import MithAtomas.Identity.HierarchicalID

/-!
# What goes over the air

`StateVector` of `include/mith/comms/state_vector.h`, the beacon payload, and `Message` of
`include/mith/comms/message.h`. Both are over the scalars `F`: over `UInt32` they are what the wire
codecs see, floats as bit patterns.
-/

namespace MithAtomas

variable (F : Type)

/-- The beacon payload. `senderPubkey` and `signature` are zero in unsigned mode. -/
structure StateVector where
  id : HierarchicalID
  position : PositionComponent F
  velocity : VelocityComponent F
  health : HealthComponent
  role : RoleComponent
  state : BehaviourStateComponent
  tick : UInt32
  /-- the sender's notion of consensus time at emit -/
  syncTimeS : F
  senderPubkey : IdentityKey
  signature : Vector UInt8 64
  deriving DecidableEq, Repr

/-- `StateVector{}`. -/
def StateVector.empty {F : Type} [Zero F] : StateVector F where
  id := {}
  position := ⟨0, 0, 0⟩
  velocity := ⟨0, 0, 0⟩
  health := {}
  role := {}
  state := {}
  tick := 0
  syncTimeS := 0
  senderPubkey := {}
  signature := Vector.replicate 64 0

abbrev MessageTypeID := UInt32

namespace messages

def DISCOVERY_HELLO : MessageTypeID := 5
def DISCOVERY_WELCOME : MessageTypeID := 6
/-- Where the user-defined types start. -/
def CUSTOM : MessageTypeID := 0x1000

end messages

/-- A directed or broadcast packet of the message channel. -/
structure Message where
  sender : HierarchicalID
  recipient : HierarchicalID
  type : MessageTypeID
  seq : UInt32
  timestampS : F
  payload : Vector UInt8 128
  deriving DecidableEq, Repr

/-- `Message{}`: a broadcast of the first user-defined type. -/
def Message.empty {F : Type} [Zero F] : Message F where
  sender := {}
  recipient := broadcastID
  type := messages.CUSTOM
  seq := 0
  timestampS := 0
  payload := Vector.replicate 128 0

end MithAtomas
