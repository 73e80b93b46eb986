import MithAtomas.Systems.ActionOrdering

/-!
# The degraded state and the actions of the tick

While `FaultMonitorSystem` is in the degraded state the mask lets only `IDLE` and `REGROUP` through
(`Masked`, which every tick of every run keeps). `ActionValidatorSystem` reads the mask that
`FaultMonitorSystem` writes, so the two conflict, and by their names the validator runs first: in
the tick in which the degraded state is entered the actions have been validated under the mask from
before. What is done in a degraded tick is therefore safe if the tick began in the degraded state,
and otherwise if nothing but `IDLE` and `REGROUP` was allowed anyway (`degraded_tick_safe_iff`).
-/

namespace MithAtomas

open LinearExtension Runs

variable {F U : Type} {N : ℕ} {auth : Option SignatureScheme}

/-! ### The mask of the degraded state -/

/-- The actions of the degraded state. -/
def Action.Harmless (a : Action F) : Prop :=
  a.type = actions.IDLE ∨ a.type = actions.REGROUP

theorem FaultMonitorSystem.allows_degradedMask {t : ActionTypeID}
    (h : degradedMask.allows t = true) : t = actions.IDLE ∨ t = actions.REGROUP := by
  unfold PermissionMaskComponent.allows at h
  split at h
  · cases h
  · split at h
    · cases h
    · next hmax =>
      -- the 32 bits of the mask, one by one
      have hbits : ∀ n : Fin 32, (degradedMask.allowedBuiltins &&& (1 <<< UInt32.ofNat n)) != 0 →
          UInt32.ofNat n = actions.IDLE ∨ UInt32.ofNat n = actions.REGROUP := by decide
      have hlt : t.toNat < 32 := by
        have hle : t ≤ actions.BUILTIN_MAX := UInt32.not_lt.mp hmax
        exact Nat.lt_succ_of_le (UInt32.le_iff_toNat_le.mp hle)
      have ht := hbits ⟨t.toNat, hlt⟩
      simp only [UInt32.ofNat_toNat] at ht
      exact ht h

namespace World

variable (w : World F U)

/-- In the degraded state the mask is the restricted one. -/
def Masked : Prop :=
  w.faultMonitor.inDegradedState = true → w.mask = FaultMonitorSystem.degradedMask

variable {w}

/-- **`FaultMonitorSystem` keeps the mask restricted** as long as it is in the degraded state. -/
theorem Masked.faultMonitorTick (h : w.Masked) : w.faultMonitorTick.Masked := by
  unfold Masked World.faultMonitorTick FaultMonitorSystem.tick
  simp only
  split
  · exact fun _ => rfl
  · split
    · -- recovery
      intro hdegraded
      cases hdegraded
    · exact h

theorem harmless_allowedActions (hmask : w.mask = FaultMonitorSystem.degradedMask) :
    ∀ a ∈ w.allowedActions, a.Harmless := by
  intro a ha
  unfold allowedActions at ha
  rw [hmask] at ha
  exact FaultMonitorSystem.allows_degradedMask (List.mem_filter.mp ha).2

variable [FloatScalar F]

/-- With harmless actions only, nothing moves. -/
theorem moveTick_of_harmless (h : ∀ a ∈ w.actionQueue.validatedActions, a.Harmless) :
    w.moveTick = w := by
  have hno : ∀ a ∈ w.actionQueue.validatedActions, a.type ≠ actions.MOVE := by
    intro a ha hmove
    rcases h a ha with hidle | hregroup
    · rw [hmove] at hidle
      revert hidle
      decide
    · rw [hmove] at hregroup
      revert hregroup
      decide
  unfold moveTick
  rw [MoveActionHandler.tick_of_no_move hno]

/-- With harmless actions only, nothing is sent. -/
theorem transmitTick_of_harmless (h : ∀ a ∈ w.actionQueue.validatedActions, a.Harmless) :
    w.transmitTick = w := by
  have hno : TransmitActionHandler.transmits w.actionQueue = [] := by
    refine List.filter_eq_nil_iff.mpr fun a ha => ?_
    rw [decide_eq_true_iff]
    intro htransmit
    rcases h a ha with hidle | hregroup
    · rw [htransmit] at hidle
      revert hidle
      decide
    · rw [htransmit] at hregroup
      revert hregroup
      decide
  unfold transmitTick
  split
  · unfold sendTransmits
    rw [TransmitActionHandler.tick_eq, hno]
    simp
  · rfl

end World

/-! ### The systems and their ticks -/

/-- What may happen between the ticks: the mission may change the mask, but not behind the back of
the degraded state, and the fault monitor is its own. -/
def KeepsControl (w w' : World F U) : Prop :=
  w'.faultMonitor = w.faultMonitor ∧
    (w.faultMonitor.inDegradedState = true → w'.mask = w.mask)

variable [FloatScalar F] {systems : Fin N → System (World F U)}

/-- A world with the fault monitor, the validator and the handlers; the mission's own systems leave
the mask to the fault monitor. -/
structure ControlRegistration (auth : Option SignatureScheme)
    (systems : Fin N → System (World F U)) (monitor validator move transmit : Fin N) : Prop
    extends Registration auth systems where
  monitor_eq : systems monitor = ShippedSystem.faultMonitor.system auth
  validator_eq : systems validator = ShippedSystem.actionValidator.system auth
  move_eq : systems move = ShippedSystem.move.system auth
  transmit_eq : systems transmit = ShippedSystem.transmit.system auth
  control_frame : ∀ i, (∀ s : ShippedSystem, systems i ≠ s.system auth) → ∀ w,
    ((systems i).tick w).faultMonitor = w.faultMonitor ∧ ((systems i).tick w).mask = w.mask

/-- In a tick, only harmless actions are validated, nothing moves, and nothing is sent. -/
structure DegradedSafe (systems : Fin N → System (World F U)) (order : List (Fin N))
    (w : World F U) (validator move transmit : Fin N) : Prop where
  validated :
    ∀ a ∈ (seenBy systems order w validator).actionValidatorTick.actionQueue.validatedActions,
    a.Harmless
  /-- `MoveActionHandler` writes no velocity, nor anything else -/
  still : (seenBy systems order w move).moveTick = seenBy systems order w move
  /-- `TransmitActionHandler` sends no message -/
  silent : (seenBy systems order w transmit).transmitTick = seenBy systems order w transmit

namespace ControlRegistration

variable {monitor validator move transmit : Fin N} {mode : SchedulerMode} {order : List (Fin N)}

/-- Only the fault monitor changes its state and the mask. -/
theorem control_of_ne (h : ControlRegistration auth systems monitor validator move transmit)
    {i : Fin N} (hi : i ≠ monitor) (w : World F U) :
    ((systems i).tick w).faultMonitor = w.faultMonitor ∧ ((systems i).tick w).mask = w.mask := by
  by_cases hshipped : ∃ s : ShippedSystem, systems i = s.system auth
  · obtain ⟨s, hs⟩ := hshipped
    have hne : s ≠ .faultMonitor := by
      rintro rfl
      refine hi (h.names ?_)
      show (systems i).describe.name = (systems monitor).describe.name
      rw [hs, h.monitor_eq]
    have hcells : Cell.faultMonitor ∉ s.touchesWrites ∧ Cell.mask ∉ s.touchesWrites := by
      cases s with
      | faultMonitor => exact absurd rfl hne
      | _ => decide
    rw [hs]
    exact ⟨s.tick_frame w hcells.1, s.tick_frame w hcells.2⟩
  · exact h.control_frame i (fun s hs => hshipped ⟨s, hs⟩) w

/-- The validator runs under the mask with which the tick has begun. -/
theorem mask_seenBy_validator
    (h : ControlRegistration auth systems monitor validator move transmit)
    (horder : TickOrder (descriptors systems) mode order) (w : World F U) :
    (seenBy systems order w validator).mask = w.mask := by
  have hvalidator : descriptors systems validator = ShippedSystem.actionValidator.describe := by
    unfold descriptors
    rw [h.validator_eq]
    rfl
  have hmonitor : descriptors systems monitor = ShippedSystem.faultMonitor.describe := by
    unfold descriptors
    rw [h.monitor_eq]
    rfl
  -- "ActionValidatorSystem" sorts before "FaultMonitorSystem"
  have hbefore : validator ∈ before order monitor := by
    refine horder.mem_before h.names ?_ ?_
    · rw [hvalidator, hmonitor]
      decide
    · rw [hvalidator, hmonitor]
      decide
  have hlate : monitor ∉ before order validator := notMem_before_of_mem_before hbefore
  refine execute_frame (π := fun w : World F U => w.mask) ?_ w
  intro i hi w
  refine (h.control_of_ne ?_ w).2
  rintro rfl
  exact hlate hi

/-- A whole tick keeps the mask restricted in the degraded state. -/
theorem masked_runInOrder (h : ControlRegistration auth systems monitor validator move transmit)
    (horder : TickOrder (descriptors systems) mode order) {w : World F U} (hw : w.Masked) :
    (runInOrder systems order w).Masked := by
  -- both fields are as the fault monitor leaves them
  have hview := execute_view (f := fun i => (systems i).tick)
    (π := fun w : World F U => (w.faultMonitor, w.mask)) (horder.nodup h.names)
    (horder.mem h.names monitor)
    (fun i _ hi w => Prod.ext (h.control_of_ne hi w).1 (h.control_of_ne hi w).2) w
  have hseen : (seenBy systems order w monitor).Masked := by
    have hframe := execute_frame (f := fun i => (systems i).tick) (l := before order monitor)
      (π := fun w : World F U => (w.faultMonitor, w.mask))
      (fun i hi w => by
        have hne : i ≠ monitor := by
          rintro rfl
          exact notMem_before order i hi
        exact Prod.ext (h.control_of_ne hne w).1 (h.control_of_ne hne w).2) w
    obtain ⟨hmonitor, hmask⟩ := Prod.mk.inj hframe
    unfold World.Masked
    show (execute _ _ w).faultMonitor.inDegradedState = true → (execute _ _ w).mask = _
    rw [hmonitor, hmask]
    exact hw
  have htick : (systems monitor).tick = World.faultMonitorTick := by
    rw [h.monitor_eq]
    rfl
  rw [htick] at hview
  obtain ⟨hmonitor, hmask⟩ := Prod.mk.inj hview
  have hafter := hseen.faultMonitorTick
  unfold World.Masked
  show (execute _ _ w).faultMonitor.inDegradedState = true → (execute _ _ w).mask = _
  rw [hmonitor, hmask]
  exact hafter

theorem masked_step (h : ControlRegistration auth systems monitor validator move transmit)
    {tickRateHz : F} {w w' : World F U} {l : Option (List (Fin N))} (hw : w.Masked)
    (hstep : WorldStep systems mode tickRateHz KeepsControl w l w') : w'.Masked := by
  cases hstep with
  | tick horder =>
    have hadvance : (w.advance tickRateHz).Masked := hw
    exact h.masked_runInOrder horder hadvance
  | outside hkeeps =>
    obtain ⟨hmonitor, hmask⟩ := hkeeps
    intro hdegraded
    rw [hmonitor] at hdegraded
    rw [hmask hdegraded]
    exact hw hdegraded

/-- What a handler sees is what the validator has written: its name is the later one. -/
theorem validated_seenBy_shipped
    (h : ControlRegistration auth systems monitor validator move transmit) {s : ShippedSystem}
    {handler : Fin N} (hs : systems handler = s.system auth)
    (hreads : Builtin.actionQueue.id ∈ s.describe.readsComponents)
    (hlate : "ActionValidatorSystem" < s.describe.name)
    (horder : TickOrder (descriptors systems) mode order) (w : World F U) :
    (seenBy systems order w handler).actionQueue.validatedActions
      = (seenBy systems order w validator).allowedActions := by
  have hdescribe : (systems handler).describe = s.describe := by
    rw [hs]
    rfl
  rw [h.validated_seenBy h.validator_eq (hdescribe ▸ hreads) horder, hdescribe, if_pos hlate,
    World.validatedActions_actionValidatorTick]

/-- **A tick is safe if and only if** what the validator is about to let through is harmless. -/
theorem degradedSafe_iff (h : ControlRegistration auth systems monitor validator move transmit)
    (horder : TickOrder (descriptors systems) mode order) (w : World F U) :
    DegradedSafe systems order w validator move transmit ↔
      ∀ a ∈ (seenBy systems order w validator).allowedActions, a.Harmless := by
  constructor
  · intro hsafe
    rw [← World.validatedActions_actionValidatorTick]
    exact hsafe.validated
  · intro hharmless
    refine ⟨?_, ?_, ?_⟩
    · rw [World.validatedActions_actionValidatorTick]
      exact hharmless
    · refine World.moveTick_of_harmless ?_
      rw [h.validated_seenBy_shipped h.move_eq (by decide) (by decide) horder]
      exact hharmless
    · refine World.transmitTick_of_harmless ?_
      rw [h.validated_seenBy_shipped h.transmit_eq (by decide) (by decide) horder]
      exact hharmless

end ControlRegistration

/-- **What the degraded state guarantees.** In every run that starts outside of it, in every tick at
whose end the fault monitor is in the degraded state: only harmless actions are validated, nothing
moves and nothing is sent, if and only if the tick has begun in the degraded state, or the queued
actions that the mask allows when the validator's turn comes are harmless. -/
theorem degraded_tick_safe_iff {monitor validator move transmit : Fin N}
    (hreg : ControlRegistration auth systems monitor validator move transmit)
    {mode : SchedulerMode} {tickRateHz : F} {w₀ w : World F U}
    (h₀ : w₀.faultMonitor.inDegradedState = false) {ls : List (Option (List (Fin N)))}
    (hrun : Run (WorldStep systems mode tickRateHz KeepsControl) w₀ ls w) :
    Run (fun w l w' => WorldStep systems mode tickRateHz KeepsControl w l w' ∧
      ∀ order, l = some order → w'.faultMonitor.inDegradedState = true →
        (DegradedSafe systems order (w.advance tickRateHz) validator move transmit ↔
          w.faultMonitor.inDegradedState = true ∨
          ∀ a ∈ (seenBy systems order (w.advance tickRateHz) validator).actionQueue.queue.items,
            w.mask.allows a.type = true → a.Harmless)) w₀ ls w := by
  have hstart : w₀.Masked := by
    intro hdegraded
    rw [h₀] at hdegraded
    cases hdegraded
  refine hrun.strengthen (I := World.Masked) (fun _ _ _ hw hstep => hreg.masked_step hw hstep)
    (fun w l w' hw hstep order hl _ => ?_) hstart
  subst hl
  cases hstep with
  | tick horder =>
    -- the mask that the validator finds is the one of the tick before
    have hmask : (seenBy systems order (w.advance tickRateHz) validator).mask = w.mask :=
      hreg.mask_seenBy_validator horder (w.advance tickRateHz)
    rw [hreg.degradedSafe_iff horder]
    constructor
    · intro hharmless
      refine .inr fun a ha hallows => hharmless a ?_
      unfold World.allowedActions
      rw [hmask]
      exact List.mem_filter.mpr ⟨ha, hallows⟩
    · rintro (hdegraded | hqueued)
      · exact World.harmless_allowedActions (hmask.trans (hw hdegraded))
      · intro a ha
        unfold World.allowedActions at ha
        rw [hmask] at ha
        obtain ⟨hqueue, hallows⟩ := List.mem_filter.mp ha
        exact hqueued a hqueue hallows

/-! ### A robot that falls ill while it is told to move -/

/-- The four systems, by name. -/
def controlSystems : Fin 4 → System (World ℚ Unit) :=
  ![ShippedSystem.actionValidator.system none, ShippedSystem.faultMonitor.system none,
    ShippedSystem.move.system none, ShippedSystem.transmit.system none]

/-- `MOVE`, with 1 m/s along the x axis. -/
def moveAction : Action ℚ :=
  { Action.empty with
    type := actions.MOVE
    params := (Vector.replicate 64 0).set 2 0x80 |>.set 3 0x3F }

/-- Health is below the threshold, which has not been noticed yet. -/
def illWorld : World ℚ Unit :=
  { World.init .default {} none [] none none () with
    health := ⟨30⟩
    actionQueue :=
      { ActionQueueComponent.empty with
        queue := (ActionQueueComponent.empty.queue.push moveAction).1 } }

theorem controlSystems_registration : ControlRegistration none controlSystems 1 0 2 3 where
  names := by decide
  validated_frame := by
    intro i hi w
    fin_cases i
    · exact absurd rfl (hi .actionValidator)
    · exact absurd rfl (hi .faultMonitor)
    · exact absurd rfl (hi .move)
    · exact absurd rfl (hi .transmit)
  monitor_eq := rfl
  validator_eq := rfl
  move_eq := rfl
  transmit_eq := rfl
  control_frame := by
    intro i hi w
    fin_cases i
    · exact absurd rfl (hi .actionValidator)
    · exact absurd rfl (hi .faultMonitor)
    · exact absurd rfl (hi .move)
    · exact absurd rfl (hi .transmit)

theorem controlSystems_order : TickOrder (descriptors controlSystems) .sequential [0, 1, 2, 3] := by
  show [0, 1, 2, 3] = buildOrder (descriptors controlSystems)
  decide

/-- **The robot still moves** in the tick in which it enters the degraded state. -/
theorem ill_robot_moves :
    ControlRegistration none controlSystems 1 0 2 3 ∧
    TickOrder (descriptors controlSystems) .sequential [0, 1, 2, 3] ∧
    illWorld.faultMonitor.inDegradedState = false ∧
    (runInOrder controlSystems [0, 1, 2, 3] (illWorld.advance 20)).faultMonitor.inDegradedState
      = true ∧
    (runInOrder controlSystems [0, 1, 2, 3] (illWorld.advance 20)).velocity = ⟨1, 0, 0⟩ ∧
    ¬ DegradedSafe controlSystems [0, 1, 2, 3] (illWorld.advance 20) 0 2 3 := by
  refine ⟨controlSystems_registration, controlSystems_order, rfl, by decide +kernel,
    by decide +kernel, fun hsafe => ?_⟩
  have hall : ∀ a ∈ (seenBy controlSystems [0, 1, 2, 3] (illWorld.advance 20)
      0).actionValidatorTick.actionQueue.validatedActions,
      a.type = actions.IDLE ∨ a.type = actions.REGROUP := hsafe.validated
  revert hall
  decide +kernel

theorem ill_robot_safe_iff :
    illWorld.faultMonitor.inDegradedState = false ∧
    Run (fun w l w' => WorldStep controlSystems .sequential 20 KeepsControl w l w' ∧
      ∀ order, l = some order → w'.faultMonitor.inDegradedState = true →
        (DegradedSafe controlSystems order (w.advance 20) 0 2 3 ↔
          w.faultMonitor.inDegradedState = true ∨
          ∀ a ∈ (seenBy controlSystems order (w.advance 20) 0).actionQueue.queue.items,
            w.mask.allows a.type = true → a.Harmless))
      illWorld [some [0, 1, 2, 3]] (runInOrder controlSystems [0, 1, 2, 3] (illWorld.advance 20)) :=
  ⟨rfl, degraded_tick_safe_iff controlSystems_registration rfl
    (Run.single (WorldStep.tick illWorld controlSystems_order))⟩

end MithAtomas
