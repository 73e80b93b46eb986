import MithAtomas.Framework.Hysteresis
import MithAtomas.Systems.DegradedMode

/-!
# The fault monitor is a hysteresis automaton

The degraded state is a latch on the health that `FaultMonitorSystem` computes in its ticks: set
below `degraded_threshold`, reset from `degraded_threshold + degraded_hysteresis` on. The permission
mask is a register that the latch overrides. `World.maskOverride_faultMonitorTick` is the
refinement, tick by tick, and `fault_hysteresis` what it means for every run in which nobody else
writes the mask.

Health may be written by anybody between the ticks, and faults reported.
-/

namespace MithAtomas

open Runs

variable {F U : Type}

/-! ### The latch and the mask -/

/-- Set by health below the threshold, reset by health above it by the hysteresis. -/
def FaultMonitorSystem.Params.latch (params : FaultMonitorSystem.Params) :
    Latch HealthComponent where
  sets health := health.value.toNat < params.degradedThreshold.toNat
  resets health := params.degradedThreshold.toNat + params.degradedHysteresis.toNat
    ≤ health.value.toNat
  decidableSets := inferInstance
  decidableResets := inferInstance
  apart := by
    intro health hset hreset
    omega

namespace FaultMonitorSystem

/-- The comparison that ends the degraded state does not wrap. -/
theorem recovers_iff (params : Params) (health : HealthComponent) :
    params.degradedThreshold.toUInt32 + params.degradedHysteresis.toUInt32 ≤ health.value.toUInt32 ↔
      params.latch.resets health := by
  have hthreshold := params.degradedThreshold.toNat_lt
  have hhysteresis := params.degradedHysteresis.toNat_lt
  rw [UInt32.le_iff_toNat_le, UInt32.toNat_add, UInt8.toNat_toUInt32, UInt8.toNat_toUInt32,
    UInt8.toNat_toUInt32, Nat.mod_eq_of_lt (by omega)]
  rfl

/-- The mask of the degraded state lets `IDLE` and `REGROUP` through, and nothing else. -/
theorem allows_degradedMask_iff (t : ActionTypeID) :
    degradedMask.allows t = true ↔ t = actions.IDLE ∨ t = actions.REGROUP := by
  refine ⟨allows_degradedMask, ?_⟩
  rintro (rfl | rfl) <;> decide

end FaultMonitorSystem

namespace World

variable (w : World F U)

/-- The health that a tick of `FaultMonitorSystem` would leave. -/
def deductedHealth : HealthComponent :=
  w.faultMonitor.deduct w.faultCount w.health

/-- The mask as a register that the degraded state overrides. -/
def maskOverride : Override PermissionMaskComponent where
  on := w.faultMonitor.inDegradedState
  value := w.mask
  saved := ⟨w.faultMonitor.savedAllowedBuiltins, w.faultMonitor.savedAllowUserActions⟩

/-- `report_fault`. -/
def reportFault : World F U :=
  { w with faultCount := w.faultCount + 1 }

/-- **One tick** is one step of the automaton, on the health it has computed. -/
theorem maskOverride_faultMonitorTick :
    w.faultMonitorTick.maskOverride
      = w.maskOverride.next w.faultMonitor.params.latch FaultMonitorSystem.degradedMask
          w.deductedHealth := by
  unfold Override.next maskOverride faultMonitorTick FaultMonitorSystem.tick deductedHealth
  simp only
  generalize w.faultMonitor.deduct w.faultCount w.health = health
  have hsets : w.faultMonitor.params.latch.sets health ↔
      health.value < w.faultMonitor.params.degradedThreshold := UInt8.lt_iff_toNat_lt.symm
  have hresets := FaultMonitorSystem.recovers_iff w.faultMonitor.params health
  simp only [hsets, ← hresets]
  cases hon : w.faultMonitor.inDegradedState with
  | false =>
    simp only [Bool.false_eq_true, not_false_eq_true, true_and, if_false, false_and]
    split <;> simp
  | true =>
    simp only [not_true_eq_false, false_and, if_false, true_and, if_true, ge_iff_le]
    split <;> simp

theorem params_faultMonitorTick :
    w.faultMonitorTick.faultMonitor.params = w.faultMonitor.params := by
  unfold faultMonitorTick FaultMonitorSystem.tick
  simp only
  split
  · rfl
  · split <;> rfl

end World

/-! ### Runs -/

/-- What happens to a robot, as far as its fault monitor is concerned. -/
inductive MonitorEvent where
  /-- a tick of `FaultMonitorSystem`, with the health after the deduction -/
  | tick (health : HealthComponent)
  | reportFault
  /-- anybody writes the health -/
  | writeHealth (health : HealthComponent)
  /-- anything else -/
  | other

/-- The health of a tick. -/
def MonitorEvent.deducted : MonitorEvent → Option HealthComponent
  | tick health => some health
  | _ => none

/-- Nobody but `FaultMonitorSystem` writes the mask. -/
inductive MonitorStep (w : World F U) : MonitorEvent → World F U → Prop
  | tick : MonitorStep w (.tick w.deductedHealth) w.faultMonitorTick
  | reportFault : MonitorStep w .reportFault w.reportFault
  | writeHealth (health : HealthComponent) :
      MonitorStep w (.writeHealth health) { w with health }
  | other {w' : World F U} (hmask : w'.mask = w.mask)
    (hmonitor : w'.faultMonitor = w.faultMonitor) :
      MonitorStep w .other w'

section Runs

variable {params : FaultMonitorSystem.Params} {w₀ w w' : World F U} {ls : List MonitorEvent}
  {l : MonitorEvent}

/-- The monitor after the events `ls`, which have begun with the mask `original`. -/
structure Monitors (params : FaultMonitorSystem.Params) (original : PermissionMaskComponent)
    (ls : List MonitorEvent) (w : World F U) : Prop where
  latch : w.faultMonitor.inDegradedState = params.latch.after (ls.filterMap MonitorEvent.deducted)
  params : w.faultMonitor.params = params
  mask : w.maskOverride.Keeps FaultMonitorSystem.degradedMask original

theorem Monitors.step {original : PermissionMaskComponent} (h : Monitors params original ls w)
    (hst : MonitorStep w l w') : Monitors params original (ls ++ [l]) w' := by
  cases hst with
  | tick =>
    have htick := w.maskOverride_faultMonitorTick
    refine ⟨?_, w.params_faultMonitorTick.trans h.params, ?_⟩
    · have hon := congrArg Override.on htick
      rw [Override.on_next, h.params] at hon
      change w.faultMonitorTick.faultMonitor.inDegradedState
        = params.latch.next w.faultMonitor.inDegradedState _ at hon
      rw [hon, h.latch, List.filterMap_append, ← Latch.after_concat]
      rfl
    · rw [htick]
      exact h.mask.next _
  | reportFault | writeHealth =>
    -- these are read by the next tick
    refine ⟨?_, h.params, h.mask⟩
    rw [List.filterMap_append]
    exact h.latch.trans (congrArg _ (List.append_nil _).symm)
  | other hmask hmonitor =>
    refine ⟨?_, hmonitor ▸ h.params, ?_⟩
    · rw [List.filterMap_append, hmonitor]
      exact h.latch.trans (congrArg _ (List.append_nil _).symm)
    · unfold World.maskOverride
      rw [hmask, hmonitor]
      exact h.mask

theorem Monitors.of_run (hfresh : w₀.faultMonitor = { params }) (hrun : Run MonitorStep w₀ ls w) :
    Monitors params w₀.mask ls w := by
  induction hrun with
  | nil =>
    refine ⟨?_, by rw [hfresh], ?_⟩
    · rw [hfresh]
      rfl
    · have hoff : w₀.maskOverride.on = false := by
        unfold World.maskOverride
        rw [hfresh]
      exact ⟨fun hon => absurd (hon.symm.trans hoff) nofun,
        fun hon => absurd (hon.symm.trans hoff) nofun, fun _ => rfl⟩
  | snoc _ hst ih => exact ih.step hst

/-- **The degraded state.** In every run of a new `FaultMonitorSystem` the robot is in the degraded
state if and only if a tick has found its health below the threshold and no later tick has found it
above by the hysteresis. The mask lets exactly `IDLE` and `REGROUP` through in that state, and is
the one from before the first tick otherwise. -/
theorem fault_hysteresis (hfresh : w₀.faultMonitor = { params }) (hrun : Run MonitorStep w₀ ls w) :
    (w.faultMonitor.inDegradedState = true ↔
      ∃ (k : ℕ) (health : HealthComponent),
        (ls.filterMap MonitorEvent.deducted)[k]? = some health ∧
        health.value.toNat < params.degradedThreshold.toNat ∧
        ∀ (j : ℕ) later, k < j → (ls.filterMap MonitorEvent.deducted)[j]? = some later →
          ¬ params.degradedThreshold.toNat + params.degradedHysteresis.toNat ≤ later.value.toNat) ∧
    (w.faultMonitor.inDegradedState = true →
      (∀ t, w.mask.allows t = true ↔ t = actions.IDLE ∨ t = actions.REGROUP) ∧
        w.mask.allowUserActions = false) ∧
    (w.faultMonitor.inDegradedState = false → w.mask = w₀.mask) := by
  have h := Monitors.of_run hfresh hrun
  refine ⟨?_, fun hon => ?_, fun hoff => h.mask.value_off hoff⟩
  · rw [h.latch]
    exact Latch.after_iff _
  · have hmask : w.mask = FaultMonitorSystem.degradedMask := h.mask.value_on hon
    rw [hmask]
    exact ⟨FaultMonitorSystem.allows_degradedMask_iff, rfl⟩

end Runs

/-- A robot that was ill, and has been put right. -/
def recoveredWorld : World ℚ Unit :=
  ({ (illWorld.faultMonitorTick) with health := ⟨50⟩ } : World ℚ Unit).faultMonitorTick

theorem recovered_mask :
    illWorld.faultMonitor = { params := {} } ∧
    Run MonitorStep illWorld [.tick ⟨30⟩, .writeHealth ⟨50⟩, .tick ⟨50⟩] recoveredWorld ∧
    recoveredWorld.mask = illWorld.mask := by
  have hrun : Run MonitorStep illWorld [.tick ⟨30⟩, .writeHealth ⟨50⟩, .tick ⟨50⟩] recoveredWorld :=
    ((Run.single MonitorStep.tick).snoc (.writeHealth ⟨50⟩)).snoc .tick
  exact ⟨rfl, hrun, (fault_hysteresis rfl hrun).2.2 (by decide)⟩

end MithAtomas
