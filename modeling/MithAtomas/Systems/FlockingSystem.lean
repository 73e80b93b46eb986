import MithAtomas.Comms.NeighbourTable

/-!
# Flocking

`src/systems/flocking_system.cpp`: the velocity changes by a weighted sum of separation, alignment
and cohesion over the neighbours within the vision radius, and is cut to the maximal speed.
-/

namespace MithAtomas

variable (F : Type)

/-- `FlockingSystem::Params`. -/
structure FlockingSystem.Params where
  separationRadiusM : F
  separationWeight : F
  alignmentWeight : F
  cohesionWeight : F
  maxSpeedMps : F
  visionRadiusM : F
  deriving DecidableEq, Repr

structure FlockingSystem where
  params : FlockingSystem.Params F
  deriving DecidableEq, Repr

variable {F} [FloatScalar F]

namespace FlockingSystem

/-- `Params{}`. -/
def Params.default : Params F where
  separationRadiusM := ((5 : ℕ) : F)
  separationWeight := ((3 : ℕ) : F) / ((2 : ℕ) : F)
  alignmentWeight := 1
  cohesionWeight := 1
  maxSpeedMps := ((5 : ℕ) : F)
  visionRadiusM := ((30 : ℕ) : F)

/-- The accumulators. -/
structure Sums (F : Type) where
  sep : VelocityComponent F
  align : VelocityComponent F
  coh : PositionComponent F
  n : ℕ
  deriving DecidableEq, Repr

/-- The accumulators at the start. -/
def Sums.zero : Sums F where
  sep := ⟨0, 0, 0⟩
  align := ⟨0, 0, 0⟩
  coh := ⟨0, 0, 0⟩
  n := 0

/-- `consider`, the body of the loop. -/
def consider (params : Params F) (selfPos : PositionComponent F) (s : Sums F) (nb : Entry F) :
    Sums F :=
  let sepRSq := params.separationRadiusM * params.separationRadiusM
  let dx := selfPos.x - nb.position.x
  let dy := selfPos.y - nb.position.y
  let dz := selfPos.z - nb.position.z
  let distSq := dx * dx + dy * dy + dz * dz
  let sep :=
    -- at the same place there is no direction to push in
    if 0 < distSq ∧ distSq < sepRSq then
      let dist := FloatScalar.sqrt distSq
      ⟨s.sep.vx + dx / dist, s.sep.vy + dy / dist, s.sep.vz + dz / dist⟩
    else s.sep
  { sep
    align := ⟨s.align.vx + nb.velocity.vx, s.align.vy + nb.velocity.vy, s.align.vz + nb.velocity.vz⟩
    coh := ⟨s.coh.x + nb.position.x, s.coh.y + nb.position.y, s.coh.z + nb.position.z⟩
    n := s.n + 1 }

/-- The neighbours that count: those in view, or all when the vision radius is off. -/
def seen (params : Params F) (nt : NeighbourTable F) (selfPos : PositionComponent F) :
    List (Entry F) :=
  if 0 < params.visionRadiusM then nt.forEachWithin selfPos params.visionRadiusM else nt.entries

/-- `v += dt * (w_sep * sep + w_align * align + w_coh * coh)`. -/
def accelerate (params : Params F) (selfPos : PositionComponent F) (selfVel : VelocityComponent F)
    (deltaTime : F) (s : Sums F) : VelocityComponent F :=
  let invN := 1 / (s.n : F)
  let alignX := s.align.vx * invN - selfVel.vx
  let alignY := s.align.vy * invN - selfVel.vy
  let alignZ := s.align.vz * invN - selfVel.vz
  let cohX := s.coh.x * invN - selfPos.x
  let cohY := s.coh.y * invN - selfPos.y
  let cohZ := s.coh.z * invN - selfPos.z
  { vx := selfVel.vx + deltaTime * (params.separationWeight * s.sep.vx
      + params.alignmentWeight * alignX + params.cohesionWeight * cohX)
    vy := selfVel.vy + deltaTime * (params.separationWeight * s.sep.vy
      + params.alignmentWeight * alignY + params.cohesionWeight * cohY)
    vz := selfVel.vz + deltaTime * (params.separationWeight * s.sep.vz
      + params.alignmentWeight * alignZ + params.cohesionWeight * cohZ) }

/-- The speed is cut to the maximum. -/
def clampSpeed (params : Params F) (v : VelocityComponent F) : VelocityComponent F :=
  let speedSq := v.vx * v.vx + v.vy * v.vy + v.vz * v.vz
  let maxSq := params.maxSpeedMps * params.maxSpeedMps
  if maxSq < speedSq ∧ 0 < speedSq then
    let scale := params.maxSpeedMps / FloatScalar.sqrt speedSq
    ⟨v.vx * scale, v.vy * scale, v.vz * scale⟩
  else v

/-- `tick`, with the new velocity. -/
def tick (sys : FlockingSystem F) (nt : NeighbourTable F) (selfPos : PositionComponent F)
    (selfVel : VelocityComponent F) (deltaTime : F) : VelocityComponent F :=
  if nt.entries = [] then selfVel
  else
    let s := (seen sys.params nt selfPos).foldl (consider sys.params selfPos) Sums.zero
    if s.n = 0 then selfVel
    else clampSpeed sys.params (accelerate sys.params selfPos selfVel deltaTime s)

end FlockingSystem

end MithAtomas
