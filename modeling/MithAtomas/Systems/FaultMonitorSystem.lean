import MithAtomas.Behaviour.Action

/-!
# The fault monitor

`src/systems/fault_monitor_system.cpp`: reported faults cost health, and health below a threshold
puts the robot in the degraded state, in which the permission mask lets only `IDLE` and `REGROUP`
through. The mask that was there is put back when health has risen by the hysteresis.
-/

namespace MithAtomas

/-- `FaultMonitorSystem::Params`. -/
structure FaultMonitorSystem.Params where
  degradedThreshold : UInt8 := 40
  degradedHysteresis : UInt8 := 10
  decrementPerFault : UInt8 := 5
  deriving DecidableEq, Repr

structure FaultMonitorSystem where
  params : FaultMonitorSystem.Params := {}
  lastFaultCount : UInt64 := 0
  savedAllowedBuiltins : UInt32 := 0xFFFFFFFF
  savedAllowUserActions : Bool := true
  inDegradedState : Bool := false
  deriving DecidableEq, Repr

namespace FaultMonitorSystem

def NORMAL_STATE : StateID := 0
def DEGRADED_STATE : StateID := 1

/-- The mask of the degraded state. -/
def degradedMask : PermissionMaskComponent where
  allowedBuiltins := (1 <<< actions.IDLE) ||| (1 <<< actions.REGROUP)
  allowUserActions := false

/-- The health after the faults reported since the last tick. -/
def deduct (sys : FaultMonitorSystem) (faultCount : UInt64) (health : HealthComponent) :
    HealthComponent :=
  let newFaults := faultCount - sys.lastFaultCount
  if newFaults > 0 then
    let totalDrop := newFaults * sys.params.decrementPerFault.toUInt64
    if totalDrop ≥ health.value.toUInt64 then ⟨0⟩
    else ⟨(health.value.toUInt64 - totalDrop).toUInt8⟩
  else health

def tick (sys : FaultMonitorSystem) (faultCount : UInt64) (health : HealthComponent)
    (mask : PermissionMaskComponent) (state : BehaviourStateComponent) :
    FaultMonitorSystem × HealthComponent × PermissionMaskComponent × BehaviourStateComponent :=
  let health := sys.deduct faultCount health
  let sys := { sys with lastFaultCount := faultCount }
  -- the mask is saved once, when the health falls
  if ¬ sys.inDegradedState ∧ health.value < sys.params.degradedThreshold then
    ({ sys with
        savedAllowedBuiltins := mask.allowedBuiltins
        savedAllowUserActions := mask.allowUserActions
        inDegradedState := true },
      health, degradedMask, ⟨DEGRADED_STATE⟩)
  -- and put back when it is above the threshold by the hysteresis
  else if sys.inDegradedState ∧ health.value.toUInt32
      ≥ sys.params.degradedThreshold.toUInt32 + sys.params.degradedHysteresis.toUInt32 then
    ({ sys with inDegradedState := false },
      health, ⟨sys.savedAllowedBuiltins, sys.savedAllowUserActions⟩, ⟨NORMAL_STATE⟩)
  else (sys, health, mask, state)

end FaultMonitorSystem

end MithAtomas
