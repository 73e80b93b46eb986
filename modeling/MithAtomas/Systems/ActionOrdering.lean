import MithAtomas.Core.Scheduler
import MithAtomas.Core.WorldFootprint

/-!
# Which actions a handler sees

`ActionValidatorSystem` overwrites the buffer of validated actions in every tick, so a handler must
run after it. The two conflict, hence the scheduler orders them by name: a handler whose name sorts
after the validator's sees what the validator has written in this tick, and any other handler sees
what the previous tick has left there (`Registration.validated_seenBy`). The shipped handlers sort
after it.

`WorldStep` is the life of a robot as the scheduler sees it: ticks, and whatever happens between
them.
-/

namespace MithAtomas

open LinearExtension Runs

variable {F U : Type} [FloatScalar F] {N : ℕ} {auth : Option SignatureScheme}
  {systems : Fin N → System (World F U)}

/-- One tick of the world, in the order in which the scheduler runs the systems; or something
outside of the ticks: the mission's code, the transports, reported faults. -/
inductive WorldStep (systems : Fin N → System (World F U)) (mode : SchedulerMode) (tickRateHz : F)
    (Outside : World F U → World F U → Prop) :
    World F U → Option (List (Fin N)) → World F U → Prop
  | tick (w : World F U) {order : List (Fin N)}
    (horder : TickOrder (descriptors systems) mode order) :
      WorldStep systems mode tickRateHz Outside w (some order)
        (runInOrder systems order (w.advance tickRateHz))
  | outside {w w' : World F U} (h : Outside w w') :
      WorldStep systems mode tickRateHz Outside w none w'

/-- Systems as a world has them: the names are distinct, and the mission's own systems leave the
buffer of validated actions to the validator. -/
structure Registration (auth : Option SignatureScheme) (systems : Fin N → System (World F U)) :
    Prop where
  names : Function.Injective fun i => (descriptors systems i).name
  validated_frame : ∀ i, (∀ s : ShippedSystem, systems i ≠ s.system auth) → ∀ w,
    ((systems i).tick w).actionQueue.validatedActions = w.actionQueue.validatedActions

namespace Registration

variable {mode : SchedulerMode} {order : List (Fin N)} {validator handler : Fin N}

/-- Only the validator changes the validated actions. -/
theorem validated_of_ne (h : Registration auth systems)
    (hvalidator : systems validator = ShippedSystem.actionValidator.system auth) {i : Fin N}
    (hi : i ≠ validator) (w : World F U) :
    ((systems i).tick w).actionQueue.validatedActions = w.actionQueue.validatedActions := by
  by_cases hshipped : ∃ s : ShippedSystem, systems i = s.system auth
  · obtain ⟨s, hs⟩ := hshipped
    have hne : s ≠ .actionValidator := by
      rintro rfl
      refine hi (h.names ?_)
      show (systems i).describe.name = (systems validator).describe.name
      rw [hs, hvalidator]
    have hcell : Cell.actionQueue ∉ s.touchesWrites := by
      cases s with
      | actionValidator => exact absurd rfl hne
      | _ => decide
    have hkeep : (s.tick auth w).actionQueue = w.actionQueue := s.tick_frame w hcell
    rw [hs]
    exact congrArg ActionQueueComponent.validatedActions hkeep
  · exact h.validated_frame i (fun s hs => hshipped ⟨s, hs⟩) w

/-- A reader of the queue conflicts with the validator. -/
theorem haveHazard_validator
    (hvalidator : systems validator = ShippedSystem.actionValidator.system auth)
    (hreads : Builtin.actionQueue.id ∈ (systems handler).describe.readsComponents) :
    haveHazard (descriptors systems validator) (descriptors systems handler) = true := by
  have hwrites : Builtin.actionQueue.id ∈ (descriptors systems validator).writesComponents := by
    show _ ∈ (systems validator).describe.writesComponents
    rw [hvalidator]
    exact List.mem_singleton_self _
  exact haveHazard_iff.mpr (.inl ⟨_, hwrites, hreads⟩)

/-- The validator is no reader of the queue. -/
theorem ne_validator
    (hvalidator : systems validator = ShippedSystem.actionValidator.system auth)
    (hreads : Builtin.actionQueue.id ∈ (systems handler).describe.readsComponents) :
    validator ≠ handler := by
  rintro rfl
  rw [hvalidator] at hreads
  revert hreads
  show Builtin.actionQueue.id ∉ ShippedSystem.actionValidator.describe.readsComponents
  decide

/-- **What a handler sees**: the actions validated in this tick if its name is the later one, else
those that were there when the tick began. -/
theorem validated_seenBy (h : Registration auth systems)
    (hvalidator : systems validator = ShippedSystem.actionValidator.system auth)
    (hreads : Builtin.actionQueue.id ∈ (systems handler).describe.readsComponents)
    (horder : TickOrder (descriptors systems) mode order) (w : World F U) :
    (seenBy systems order w handler).actionQueue.validatedActions =
      if "ActionValidatorSystem" < (systems handler).describe.name then
        (seenBy systems order w validator).actionValidatorTick.actionQueue.validatedActions
      else w.actionQueue.validatedActions := by
  have hname : (descriptors systems validator).name = "ActionValidatorSystem" := by
    show (systems validator).describe.name = _
    rw [hvalidator]
    rfl
  have hhazard := haveHazard_validator hvalidator hreads
  split
  · next hlt =>
    -- the validator runs first, and nobody touches the buffer in between
    rw [← hname] at hlt
    have hbefore := horder.mem_before h.names hlt hhazard
    have hview := execute_before_view
      (π := fun w : World F U => w.actionQueue.validatedActions) (horder.nodup h.names) hbefore
      (fun i _ hi w => h.validated_of_ne hvalidator hi w) w
    have htick : (systems validator).tick = World.actionValidatorTick := by
      rw [hvalidator]
      rfl
    rw [htick] at hview
    exact hview
  · next hnot =>
    have hne : (descriptors systems handler).name ≠ (descriptors systems validator).name :=
      fun heq => ne_validator hvalidator hreads (h.names heq).symm
    have hlt : (descriptors systems handler).name < (descriptors systems validator).name := by
      rw [hname]
      rw [hname] at hne
      exact lt_of_le_of_ne (not_lt.mp hnot) hne
    have hbefore := horder.mem_before h.names hlt (haveHazard_symm hhazard)
    have hlate : validator ∉ before order handler := notMem_before_of_mem_before hbefore
    refine execute_frame (π := fun w : World F U => w.actionQueue.validatedActions) ?_ w
    intro i hi w
    refine h.validated_of_ne hvalidator ?_ w
    rintro rfl
    exact hlate hi

end Registration

/-! ### Every tick of every run -/

/-- The validated actions that a handler sees in a tick are those that the validator writes in
it. -/
def SeesValidated (systems : Fin N → System (World F U)) (order : List (Fin N)) (w : World F U)
    (validator handler : Fin N) : Prop :=
  (seenBy systems order w handler).actionQueue.validatedActions
    = (seenBy systems order w validator).actionValidatorTick.actionQueue.validatedActions

/-- The queued actions that the mask allows. -/
def World.allowedActions (w : World F U) : List (Action F) :=
  w.mask.allowed w.actionQueue.queue.items

omit [FloatScalar F] in
theorem World.validatedActions_actionValidatorTick (w : World F U) :
    w.actionValidatorTick.actionQueue.validatedActions = w.allowedActions :=
  (ActionValidatorSystem.tick_spec w.actionQueue w.sink).1

/-- **Which handlers see the actions of the tick.** In every tick of every run the validator and the
handler run once each, and the handler sees what the validator writes in this tick if and only if
its name is the later one, or what the last tick has left is the same anyway. -/
theorem handler_sees_validated_iff (hreg : Registration auth systems) {validator handler : Fin N}
    (hvalidator : systems validator = ShippedSystem.actionValidator.system auth)
    (hreads : Builtin.actionQueue.id ∈ (systems handler).describe.readsComponents)
    {mode : SchedulerMode} {tickRateHz : F} {Outside : World F U → World F U → Prop}
    {w₀ w : World F U} {ls : List (Option (List (Fin N)))}
    (hrun : Run (WorldStep systems mode tickRateHz Outside) w₀ ls w) :
    Run (fun w l w' => WorldStep systems mode tickRateHz Outside w l w' ∧ ∀ order, l = some order →
      order.count validator = 1 ∧ order.count handler = 1 ∧
      (SeesValidated systems order (w.advance tickRateHz) validator handler ↔
        "ActionValidatorSystem" < (systems handler).describe.name ∨
        w.actionQueue.validatedActions
          = (seenBy systems order (w.advance tickRateHz) validator).allowedActions)) w₀ ls w := by
  refine hrun.mono fun w l w' hstep => ⟨hstep, fun order hl => ?_⟩
  subst hl
  cases hstep with
  | tick horder =>
    have hnodup := horder.nodup hreg.names
    refine ⟨List.count_eq_one_of_mem hnodup (horder.mem hreg.names _),
      List.count_eq_one_of_mem hnodup (horder.mem hreg.names _), ?_⟩
    unfold SeesValidated
    rw [hreg.validated_seenBy hvalidator hreads horder, World.validatedActions_actionValidatorTick]
    -- by name the validator is before the handler, or behind it
    split
    · next hlt => exact iff_of_true rfl (.inl hlt)
    · next hnot => exact (or_iff_right hnot).symm

/-- The validator, and a handler whose name sorts before it. -/
def earlyHandler : Fin 2 → System (World ℚ Unit) :=
  ![ShippedSystem.actionValidator.system none,
    { describe :=
        { name := "AHandler"
          readsComponents := [Builtin.actionQueue.id]
          writesComponents := []
          readsResources := []
          writesResources := [] }
      tick := id }]

/-- A robot with one action in its queue. -/
def idlingWorld : World ℚ Unit :=
  { World.init .default {} none [] none none () with
    actionQueue :=
      { ActionQueueComponent.empty with
        queue := (ActionQueueComponent.empty.queue.push .empty).1 } }

theorem earlyHandler_registration : Registration none earlyHandler where
  names := by decide
  validated_frame := by
    intro i hi w
    fin_cases i
    · exact absurd rfl (hi .actionValidator)
    · rfl

theorem earlyHandler_order : TickOrder (descriptors earlyHandler) .sequential [1, 0] := by
  show [1, 0] = buildOrder (descriptors earlyHandler)
  decide

/-- **The handler sees nothing**, though an action has been validated in this tick. -/
theorem earlyHandler_sees_nothing :
    Registration none earlyHandler ∧ TickOrder (descriptors earlyHandler) .sequential [1, 0] ∧
    earlyHandler 0 = ShippedSystem.actionValidator.system none ∧
    Builtin.actionQueue.id ∈ (earlyHandler 1).describe.readsComponents ∧
    ¬ SeesValidated earlyHandler [1, 0] (idlingWorld.advance 20) 0 1 := by
  refine ⟨earlyHandler_registration, earlyHandler_order, rfl, List.mem_singleton_self _, ?_⟩
  unfold SeesValidated
  decide +kernel

theorem earlyHandler_sees_validated_iff :
    earlyHandler 0 = ShippedSystem.actionValidator.system none ∧
    Run (fun w l w' => WorldStep earlyHandler .sequential 20 (fun _ _ => False) w l w' ∧
      ∀ order, l = some order → order.count 0 = 1 ∧ order.count 1 = 1 ∧
      (SeesValidated earlyHandler order (w.advance 20) 0 1 ↔
        "ActionValidatorSystem" < (earlyHandler 1).describe.name ∨
        w.actionQueue.validatedActions
          = (seenBy earlyHandler order (w.advance 20) 0).allowedActions))
      idlingWorld [some [1, 0]] (runInOrder earlyHandler [1, 0] (idlingWorld.advance 20)) :=
  ⟨rfl, handler_sees_validated_iff earlyHandler_registration rfl (List.mem_singleton_self _)
    (Run.single (WorldStep.tick idlingWorld earlyHandler_order))⟩

end MithAtomas
