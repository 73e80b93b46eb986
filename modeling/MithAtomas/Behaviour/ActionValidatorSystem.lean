import MithAtomas.Core.QueueComponents
import MithAtomas.Core.Trace

/-!
# The action validator

`src/behaviour/action_validator_system.cpp`: a tick drains the action queue; what the permission
mask allows goes to the `validated` buffer, which starts empty, and the rest is counted and
reported. `tick_spec` says what the buffer holds afterwards: the queued actions that the
mask allows, in order, all of them.
-/

namespace MithAtomas

variable {F : Type}

namespace ActionValidatorSystem

/-- `action_name`. -/
def actionName (t : ActionTypeID) : String :=
  if t = actions.IDLE then "IDLE"
  else if t = actions.MOVE then "MOVE"
  else if t = actions.HOVER then "HOVER"
  else if t = actions.TRANSMIT then "TRANSMIT"
  else if t = actions.SCAN then "SCAN"
  else if t = actions.REGROUP then "REGROUP"
  else if t = actions.FOLLOW then "FOLLOW"
  else if t ≥ actions.CUSTOM then "custom"
  else "reserved"

/-- The event of a rejected action. -/
def rejected (t : ActionTypeID) (tickCount : UInt64) : TraceEvent where
  level := .warn
  event := "action_rejected"
  fields := [⟨"action_type", .str (actionName t)⟩, ⟨"reason", .str "permission_mask"⟩,
    ⟨"tick", .u64 tickCount⟩]

/-- What a tick works on: the component, and the sink if there is one. -/
abbrev Work (F : Type) := ActionQueueComponent F × Option TraceSink

/-- The body of the loop, for an action that has been popped. -/
def validate (mask : PermissionMaskComponent) (tickCount : UInt64) (work : Work F) (a : Action F) :
    Work F :=
  let (aq, sink) := work
  if mask.allows a.type then
    if h : aq.validatedCount.toNat < ActionQueueComponent.CAPACITY then
      ({ aq with
        validated := aq.validated.set aq.validatedCount.toNat a h
        validatedCount := aq.validatedCount + 1 }, sink)
    -- no room in the validated buffer: a programmer error, as the queue has no more
    else (aq, sink)
  else
    ({ aq with
      permissionRejectionsTotal := aq.permissionRejectionsTotal + 1
      lastRejectionTick := tickCount },
      sink.map fun events => events ++ [rejected a.type tickCount])

/-- `while (auto popped = aq.queue.pop())`, for at most as many turns as there are items. -/
def drain (mask : PermissionMaskComponent) (tickCount : UInt64) : ℕ → Work F → Work F
  | 0, work => work
  | n + 1, (aq, sink) =>
    match aq.queue.pop with
    | none => (aq, sink)
    | some (a, queue) => drain mask tickCount n
      (validate mask tickCount ({ aq with queue }, sink) a)

def tick (mask : PermissionMaskComponent) (tickCount : UInt64) (aq : ActionQueueComponent F)
    (sink : Option TraceSink) : Work F :=
  drain mask tickCount aq.queue.size ({ aq with validatedCount := 0 }, sink)

/-! ### What a tick does -/

variable {mask : PermissionMaskComponent} {tickCount : UInt64}

/-- The loop's body leaves the queue alone. -/
theorem queue_validate (work : Work F) (a : Action F) :
    (validate mask tickCount work a).1.queue = work.1.queue := by
  obtain ⟨aq, sink⟩ := work
  unfold validate
  by_cases ha : mask.allows a.type = true
  · by_cases hroom : aq.validatedCount.toNat < ActionQueueComponent.CAPACITY
    · simp [ha, hroom]
    · simp [ha, hroom]
  · simp [ha]

/-- **One action.** If the buffer has room, an allowed action goes to its end. -/
theorem validatedActions_validate (aq : ActionQueueComponent F) (sink : Option TraceSink)
    (hroom : aq.validatedCount.toNat < ActionQueueComponent.CAPACITY) (a : Action F) :
    (validate mask tickCount (aq, sink) a).1.validatedActions
        = aq.validatedActions ++ mask.allowed [a] ∧
      (validate mask tickCount (aq, sink) a).1.validatedCount.toNat
        ≤ aq.validatedCount.toNat + 1 := by
  unfold validate
  -- allowed: stored behind the others; else only a rejection is counted
  by_cases ha : mask.allows a.type = true
  · have hsucc : (aq.validatedCount + 1).toNat = aq.validatedCount.toNat + 1 := by
      have hlt : aq.validatedCount.toNat < 8 := hroom
      rw [UInt8.toNat_add]
      exact Nat.mod_eq_of_lt (show aq.validatedCount.toNat + 1 < 2 ^ 8 by omega)
    have hlen : aq.validatedCount.toNat < aq.validated.toList.length := by
      rwa [Vector.length_toList]
    have hone : mask.allowed [a] = [a] := by simp [PermissionMaskComponent.allowed, ha]
    simp only [ha, if_true, dif_pos hroom]
    refine ⟨?_, hsucc.le⟩
    unfold ActionQueueComponent.validatedActions
    rw [hone, hsucc, Vector.toList_set, Ring.take_set_succ hlen]
  · have hnone : mask.allowed [a] = [] := by simp [PermissionMaskComponent.allowed, ha]
    simp only [ha, if_false, Bool.false_eq_true]
    refine ⟨?_, Nat.le_succ _⟩
    rw [hnone, List.append_nil]
    rfl

/-- The loop, from any state of the buffer that has room for what is queued. -/
theorem drain_spec (n : ℕ) (aq : ActionQueueComponent F) (sink : Option TraceSink)
    (hn : aq.queue.size = n)
    (hroom : aq.validatedCount.toNat + n ≤ ActionQueueComponent.CAPACITY) :
    (drain mask tickCount n (aq, sink)).1.validatedActions
        = aq.validatedActions ++ mask.allowed aq.queue.items ∧
      (drain mask tickCount n (aq, sink)).1.queue.size = 0 := by
  induction n generalizing aq sink with
  | zero =>
    have hnil : aq.queue.items = [] := List.length_eq_zero_iff.mp (aq.queue.length_items.trans hn)
    rw [hnil]
    exact ⟨(List.append_nil _).symm, hn⟩
  | succ n ih =>
    cases hpop : aq.queue.pop with
    | none =>
      rw [BoundedQueue.pop_eq_none_iff, hn] at hpop
      cases hpop
    | some popped =>
      obtain ⟨a, queue⟩ := popped
      obtain ⟨hitems, hsize⟩ := aq.queue.items_of_pop hpop
      -- the queue gives up one item, and the buffer takes at most one
      let work : Work F := validate mask tickCount ({ aq with queue }, sink) a
      have hcount : aq.validatedCount.toNat < ActionQueueComponent.CAPACITY := by omega
      have hone : work.1.validatedActions = aq.validatedActions ++ mask.allowed [a] ∧
          work.1.validatedCount.toNat ≤ aq.validatedCount.toNat + 1 :=
        validatedActions_validate { aq with queue } sink hcount a
      have hqueue : work.1.queue = queue := queue_validate _ a
      obtain ⟨hrest, hempty⟩ := ih work.1 work.2 (by rw [hqueue]; omega) (by omega)
      have happend : mask.allowed (a :: queue.items)
          = mask.allowed [a] ++ mask.allowed queue.items := List.filter_append [a] queue.items
      rw [drain, hpop]
      refine ⟨hrest.trans ?_, hempty⟩
      rw [hone.1, hqueue, hitems, happend, List.append_assoc]

/-- **A tick** leaves the queue empty, and in the buffer the queued actions that the mask allows. -/
theorem tick_spec (aq : ActionQueueComponent F) (sink : Option TraceSink) :
    (tick mask tickCount aq sink).1.validatedActions = mask.allowed aq.queue.items ∧
      (tick mask tickCount aq sink).1.queue.size = 0 := by
  have hroom : (0 : UInt8).toNat + aq.queue.size ≤ ActionQueueComponent.CAPACITY := by
    show 0 + aq.queue.size ≤ 8
    rw [Nat.zero_add]
    exact aq.queue.size_le
  exact drain_spec aq.queue.size { aq with validatedCount := 0 } sink rfl hroom

end ActionValidatorSystem

end MithAtomas
