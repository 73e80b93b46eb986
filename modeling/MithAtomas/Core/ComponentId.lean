import MithAtomas.Core.System

/-!
# Component type ids

`include/mith/core/component.h`: a component type is known by the FNV-1a hash of its name. The
built-in components keep their ids here, under the names the compiler gives the types.
-/

namespace MithAtomas

/-- `fnv1a_64`, over the bytes of the name. -/
def fnv1a64 (s : String) : UInt64 :=
  s.toUTF8.data.toList.foldl (fun hash c => (hash ^^^ c.toUInt64) * 0x100000001b3)
    0xcbf29ce484222325

/-- `component_id<T>()`, for the type with this name. -/
def componentId (typeName : String) : ComponentTypeID :=
  fnv1a64 typeName

/-- The built-in component types. -/
inductive Builtin where
  | identity
  | position
  | velocity
  | orientation
  | health
  | role
  | behaviourState
  | permissionMask
  | actionQueue
  | commBuffer
  deriving DecidableEq, Repr

/-- `type_name<T>()`. -/
def Builtin.typeName : Builtin → String
  | identity => "mith::IdentityComponent"
  | position => "mith::PositionComponent"
  | velocity => "mith::VelocityComponent"
  | orientation => "mith::OrientationComponent"
  | health => "mith::HealthComponent"
  | role => "mith::RoleComponent"
  | behaviourState => "mith::BehaviourStateComponent"
  | permissionMask => "mith::PermissionMaskComponent"
  | actionQueue => "mith::ActionQueueComponent"
  | commBuffer => "mith::CommBufferComponent"

/-- All of them, in the order in which `World::init` registers them. -/
def Builtin.all : List Builtin :=
  [identity, position, velocity, orientation, health, role, behaviourState, permissionMask,
    actionQueue, commBuffer]

theorem Builtin.mem_all (b : Builtin) : b ∈ all := by
  cases b <;> decide

theorem Builtin.nodup_all : all.Nodup := by
  decide

def Builtin.id (c : Builtin) : ComponentTypeID :=
  componentId c.typeName

end MithAtomas
