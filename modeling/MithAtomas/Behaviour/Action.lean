import MithAtomas.Core.Components
import MithAtomas.Core.System
import MithAtomas.Identity.HierarchicalID

/-!
# Actions

`include/mith/behaviour/action_type.h` and `action.h`, and the permission mask of
`builtin_components.h` that says which types of action are let through.
-/

namespace MithAtomas

abbrev ActionTypeID := UInt32

namespace actions

def IDLE : ActionTypeID := 0
def MOVE : ActionTypeID := 1
def HOVER : ActionTypeID := 2
def TRANSMIT : ActionTypeID := 3
def SCAN : ActionTypeID := 4
def REGROUP : ActionTypeID := 5
def FOLLOW : ActionTypeID := 6

def BUILTIN_MAX : ActionTypeID := 31
/-- Where the user-defined types start. -/
def CUSTOM : ActionTypeID := 0x1000

end actions

structure Action (F : Type) where
  type : ActionTypeID
  priority : F
  modifies : Vector ComponentTypeID 4
  modifiesCount : UInt8
  params : Vector UInt8 64
  target : HierarchicalID
  deriving DecidableEq

/-- `Action{}`: an idle action. -/
def Action.empty {F : Type} [Zero F] : Action F where
  type := actions.IDLE
  priority := 0
  modifies := Vector.replicate 4 0
  modifiesCount := 0
  params := Vector.replicate 64 0
  target := {}

instance {F : Type} [Zero F] : Inhabited (Action F) := ⟨Action.empty⟩

/-- Bit `n` of `allowedBuiltins` is for the action type `n`. -/
structure PermissionMaskComponent where
  allowedBuiltins : UInt32 := 0xFFFFFFFF
  allowUserActions : Bool := true
  deriving DecidableEq, Repr

/-- `allows`. -/
def PermissionMaskComponent.allows (mask : PermissionMaskComponent) (t : ActionTypeID) : Bool :=
  if t ≥ actions.CUSTOM then mask.allowUserActions
  else if t > actions.BUILTIN_MAX then false
  else (mask.allowedBuiltins &&& (1 <<< t)) != 0

/-- The actions that a mask lets through. -/
def PermissionMaskComponent.allowed {F : Type} (mask : PermissionMaskComponent)
    (as : List (Action F)) : List (Action F) :=
  as.filter fun a => mask.allows a.type

end MithAtomas
