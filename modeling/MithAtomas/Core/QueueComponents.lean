import MithAtomas.Behaviour.Action
import MithAtomas.Comms.StateVector
import MithAtomas.Core.BoundedQueue

/-!
# The components with queues

`ActionQueueComponent` and `CommBufferComponent` of `include/mith/core/builtin_components.h`.
-/

namespace MithAtomas

variable (F : Type)

-- the capacity of both arrays of the action queue
instance neZeroEight : NeZero 8 := ⟨Nat.succ_ne_zero 7⟩

/-- Pending actions, and the buffer of validated ones that the handlers read. -/
structure ActionQueueComponent where
  queue : BoundedQueue (Action F) 8 .dropNewest
  permissionRejectionsTotal : UInt32
  lastRejectionTick : UInt64
  validated : Vector (Action F) 8
  validatedCount : UInt8
  deriving DecidableEq

/-- Inbound messages that no handler has claimed. -/
structure CommBufferComponent where
  queue : BoundedQueue (Message F) 16 .dropOldest
  deriving DecidableEq

variable {F}

namespace ActionQueueComponent

abbrev CAPACITY : ℕ := 8

/-- `ActionQueueComponent{}`. -/
def empty [Zero F] : ActionQueueComponent F where
  queue := .empty
  permissionRejectionsTotal := 0
  lastRejectionTick := 0
  validated := Vector.replicate 8 default
  validatedCount := 0

/-- `validated[0..validated_count)`. -/
def validatedActions (aq : ActionQueueComponent F) : List (Action F) :=
  aq.validated.toList.take aq.validatedCount.toNat

end ActionQueueComponent

instance [Zero F] : Inhabited (Message F) := ⟨Message.empty⟩

/-- `CommBufferComponent{}`. -/
def CommBufferComponent.empty [Zero F] : CommBufferComponent F where
  queue := .empty

end MithAtomas
