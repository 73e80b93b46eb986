import MithAtomas.Comms.NeighbourTable

/-!
# Task allocation

`src/systems/task_alloc_system.cpp`: the robot takes the role that is most wanted, when the want
exceeds the role's threshold and its last switch is long enough ago; during a merge it need not be
long ago at all.
-/

namespace MithAtomas

variable (F : Type)

/-- `TaskAllocSystem::Params`. -/
structure TaskAllocSystem.Params where
  desiredRatios : Vector F 8
  thresholds : Vector F 8
  stabilityWindowS : F
  stimulusGain : F
  deriving DecidableEq, Repr

structure TaskAllocSystem where
  params : TaskAllocSystem.Params F
  timeSinceLastSwitchS : F
  totalSwitches : UInt64 := 0
  deriving DecidableEq, Repr

variable {F}

namespace TaskAllocSystem

abbrev MAX_TRACKED_ROLES : ℕ := 8

/-- `if (r < counts.size()) counts[r]++`. -/
def countRole (counts : Vector UInt32 MAX_TRACKED_ROLES) (r : RoleID) :
    Vector UInt32 MAX_TRACKED_ROLES :=
  if h : r.toNat < MAX_TRACKED_ROLES then counts.set r.toNat (counts[r.toNat] + 1) else counts

/-- The roles of the robot and its neighbours, counted. -/
def roleCounts (selfRole : RoleComponent) (entries : List (Entry F)) :
    Vector UInt32 MAX_TRACKED_ROLES :=
  entries.foldl (fun counts entry => countRole counts entry.role.role)
    (countRole (Vector.replicate MAX_TRACKED_ROLES 0) selfRole.role)

/-- The best role so far. -/
structure Candidate (F : Type) where
  bestRole : RoleID
  bestMargin : F
  candidateExists : Bool
  deriving DecidableEq, Repr

variable [Scalar F]

/-- `Params{}`. -/
def Params.default : Params F where
  desiredRatios := Vector.replicate MAX_TRACKED_ROLES 0
  thresholds := Vector.replicate MAX_TRACKED_ROLES 1
  stabilityWindowS := 1
  stimulusGain := 1

/-- The body of the loop over the roles. -/
def consider (params : Params F) (counts : Vector UInt32 MAX_TRACKED_ROLES) (totalF : F)
    (c : Candidate F) (r : Fin MAX_TRACKED_ROLES) : Candidate F :=
  let ratio := params.desiredRatios[r]
  -- role not managed
  if ratio ≤ 0 then c
  else
    let desiredCount := ratio * totalF
    let deficit := desiredCount - ((counts[r].toNat : ℕ) : F)
    -- role already saturated
    if deficit ≤ 0 then c
    else
      let stimulus := deficit * params.stimulusGain
      let margin := stimulus - params.thresholds[r]
      -- below the threshold
      if margin ≤ 0 then c
      else if ¬ c.candidateExists ∨ c.bestMargin < margin then
        ⟨UInt32.ofNat r, margin, true⟩
      else c

/-- Where the loop over the roles ends. -/
def candidate (params : Params F) (selfRole : RoleComponent) (entries : List (Entry F)) :
    Candidate F :=
  let counts := roleCounts selfRole entries
  let total := 1 + UInt32.ofNat entries.length
  (List.finRange MAX_TRACKED_ROLES).foldl (consider params counts ((total.toNat : ℕ) : F))
    ⟨selfRole.role, 0, false⟩

/-- The test before a switch, with the time since the last one. -/
def switches (params : Params F) (c : Candidate F) (selfRole : RoleComponent) (isMerging : Bool)
    (timeS : F) : Bool :=
  let effectiveStabilityS := if isMerging then 0 else params.stabilityWindowS
  c.candidateExists && c.bestRole ≠ selfRole.role && decide (effectiveStabilityS ≤ timeS)

/-- `tick`, with the new role. -/
def tick (sys : TaskAllocSystem F) (entries : List (Entry F)) (isMerging : Bool)
    (selfRole : RoleComponent) (deltaTime : F) : TaskAllocSystem F × RoleComponent :=
  let timeS := sys.timeSinceLastSwitchS + deltaTime
  let c := candidate sys.params selfRole entries
  if switches sys.params c selfRole isMerging timeS then
    ({ sys with timeSinceLastSwitchS := 0, totalSwitches := sys.totalSwitches + 1 }, ⟨c.bestRole⟩)
  else ({ sys with timeSinceLastSwitchS := timeS }, selfRole)

/-- Whether a merge is on only shows in the decision to switch. -/
theorem tick_eq_tick_iff (sys : TaskAllocSystem F) (entries : List (Entry F))
    (selfRole : RoleComponent) (deltaTime : F) (isMerging isMerging' : Bool) :
    sys.tick entries isMerging selfRole deltaTime = sys.tick entries isMerging' selfRole deltaTime ↔
      switches sys.params (candidate sys.params selfRole entries) selfRole isMerging
          (sys.timeSinceLastSwitchS + deltaTime)
        = switches sys.params (candidate sys.params selfRole entries) selfRole isMerging'
          (sys.timeSinceLastSwitchS + deltaTime) := by
  have hcount : sys.totalSwitches + 1 ≠ sys.totalSwitches := by simp
  simp only [tick]
  generalize switches sys.params (candidate sys.params selfRole entries) selfRole isMerging
    (sys.timeSinceLastSwitchS + deltaTime) = d
  generalize switches sys.params (candidate sys.params selfRole entries) selfRole isMerging'
    (sys.timeSinceLastSwitchS + deltaTime) = d'
  constructor
  · intro h
    -- a switch is counted, so one that only one of the two makes shows
    have hswitches := congrArg (fun r => r.1.totalSwitches) h
    cases d <;> cases d'
    · rfl
    · exact absurd hswitches.symm hcount
    · exact absurd hswitches hcount
    · rfl
  · intro h
    rw [h]

end TaskAllocSystem

end MithAtomas
