import MithAtomas.Core.Scalar

/-!
# Built-in components

The plain components of `include/mith/core/builtin_components.h`, over the scalars `F`, with the
defaults the header gives.
-/

namespace MithAtomas

variable (F : Type)

/-- World-frame position, in metres. -/
structure PositionComponent where
  x : F
  y : F
  z : F
  deriving DecidableEq, Repr

/-- Current velocity, in metres per second. -/
structure VelocityComponent where
  vx : F
  vy : F
  vz : F
  deriving DecidableEq, Repr

structure HealthComponent where
  value : UInt8 := 100
  deriving DecidableEq, Repr

abbrev RoleID := UInt32
abbrev StateID := UInt32

structure RoleComponent where
  role : RoleID := 0
  deriving DecidableEq, Repr

structure BehaviourStateComponent where
  state : StateID := 0
  deriving DecidableEq, Repr

variable {F} [Scalar F]

namespace PositionComponent

/-- `(a.x - b.x)² + (a.y - b.y)² + (a.z - b.z)²`. -/
def distSq (a b : PositionComponent F) : F :=
  let ex := a.x - b.x
  let ey := a.y - b.y
  let ez := a.z - b.z
  ex * ex + ey * ey + ez * ez

end PositionComponent

end MithAtomas
