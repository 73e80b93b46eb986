import MithAtomas.Core.Components

/-!
# Kinematics

`src/systems/kinematics_system.cpp`: the position moves by the velocity.
-/

namespace MithAtomas

variable {F : Type} [Scalar F]

def KinematicsSystem.tick (vel : VelocityComponent F) (deltaTime : F) (pos : PositionComponent F) :
    PositionComponent F where
  x := pos.x + vel.vx * deltaTime
  y := pos.y + vel.vy * deltaTime
  z := pos.z + vel.vz * deltaTime

end MithAtomas
