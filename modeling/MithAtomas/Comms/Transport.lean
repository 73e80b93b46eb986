import MithAtomas.Comms.StateVector

/-!
# Transports

`include/mith/comms/transport.h`, as the systems of a robot see it: whether there is a transport for
a channel and whether it supports it.
-/

namespace MithAtomas

/-- A transport of one channel: `supports_beacons()` or `supports_messages()`. -/
structure Channel where
  supported : Bool
  deriving DecidableEq, Repr

/-- `transport && transport->supports_…()`. -/
def usable (transport : Option Channel) : Bool :=
  transport.any Channel.supported

/-- What is handed to a transport. -/
inductive Packet (F : Type)
  | beacon (sv : StateVector F)
  | message (msg : Message F)
  deriving DecidableEq, Repr

namespace Packet

variable {F : Type}

def beacon? : Packet F → Option (StateVector F)
  | beacon sv => some sv
  | message _ => none

def message? : Packet F → Option (Message F)
  | beacon _ => none
  | message msg => some msg

@[simp] theorem filterMap_beacons (svs : List (StateVector F)) :
    (svs.map beacon).filterMap beacon? = svs := by
  rw [List.filterMap_map]
  exact List.filterMap_some

@[simp] theorem filterMap_messages (msgs : List (Message F)) :
    (msgs.map message).filterMap beacon? = [] := by
  rw [List.filterMap_map]
  exact List.filterMap_eq_nil_iff.mpr fun _ _ => rfl

end Packet

end MithAtomas
