import MithAtomas.Comms.NeighbourTable

/-!
# Clock synchronisation

`src/systems/clock_sync_system.cpp`: a tick moves the clock offset towards the mean of the peers'
clocks, by a fraction of the gap and at most by the cap.
-/

namespace MithAtomas

variable (F : Type)

/-- `ClockSyncSystem::Params`. -/
structure ClockSyncSystem.Params where
  adjustmentRate : F
  maxStepS : F
  deriving DecidableEq, Repr

structure ClockSyncSystem where
  params : ClockSyncSystem.Params F
  adjustments : UInt64 := 0
  observations : UInt64 := 0
  deriving DecidableEq, Repr

variable {F} [Scalar F]

namespace ClockSyncSystem

/-- `std::clamp`. -/
def clamp (v lo hi : F) : F :=
  if v < lo then lo else if hi < v then hi else v

/-- The step towards the mean of the entries' clocks, when there are `n` of them. -/
def step (params : Params F) (entries : List (Entry F)) (n : UInt32) (mySync : F) : F :=
  let sum := entries.foldl (fun sum it => sum + (it.syncTimeS - mySync)) 0
  let meanGap := sum / ((n.toNat : ℕ) : F)
  let step := params.adjustmentRate * meanGap
  if 0 < params.maxStepS then clamp step (-params.maxStepS) params.maxStepS else step

/-- `Params{}`. -/
def Params.default : Params F where
  adjustmentRate := 1 / ((10 : ℕ) : F)
  maxStepS := 1

/-- `tick`, with the new clock offset. -/
def tick (sys : ClockSyncSystem F) (entries : List (Entry F)) (mySync clockOffsetS : F) :
    ClockSyncSystem F × F :=
  -- a rate that is not positive turns the system off
  if sys.params.adjustmentRate ≤ 0 then (sys, clockOffsetS)
  else
    let n := UInt32.ofNat entries.length
    if n = 0 then (sys, clockOffsetS)
    else
      let sys := { sys with observations := sys.observations + n.toUInt64 }
      let step := step sys.params entries n mySync
      -- a step of zero is no adjustment
      if 0 < Scalar.abs step then
        ({ sys with adjustments := sys.adjustments + 1 }, clockOffsetS + step)
      else (sys, clockOffsetS)

/-- The correction that a tick is about to make. -/
def correction (params : Params F) (entries : List (Entry F)) (mySync : F) : Option F :=
  let n := UInt32.ofNat entries.length
  if params.adjustmentRate ≤ 0 ∨ n = 0 then none
  else if 0 < Scalar.abs (step params entries n mySync) then some (step params entries n mySync)
  else none

/-- The offset changes by the correction. -/
theorem tick_snd (sys : ClockSyncSystem F) (entries : List (Entry F)) (mySync clockOffsetS : F) :
    (sys.tick entries mySync clockOffsetS).2
      = ((correction sys.params entries mySync).map (clockOffsetS + ·)).getD clockOffsetS := by
  unfold tick correction
  by_cases hrate : sys.params.adjustmentRate ≤ 0
  · simp only [hrate, if_true, true_or, Option.map_none, Option.getD_none]
  · by_cases hn : UInt32.ofNat entries.length = 0
    · simp only [hrate, hn, if_true, if_false, or_true, Option.map_none, Option.getD_none]
    · simp only [hrate, hn, if_false, or_self]
      split <;> rfl

end ClockSyncSystem

end MithAtomas
