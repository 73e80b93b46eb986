import MithAtomas.Core.QueueComponents
import MithAtomas.Framework.ByteCodec

/-!
# The built-in action handlers

`src/behaviour/builtin_action_handlers.cpp`: each handler goes through the validated actions and
acts on those of its type. `MoveActionHandler` sets the velocity, `TransmitActionHandler` sends a
message for each, and `HoverActionHandler` only counts.
-/

namespace MithAtomas

open ByteCodec

variable {F : Type}

structure MoveActionHandler where
  handled : UInt64 := 0
  deriving DecidableEq, Repr

structure TransmitActionHandler where
  handled : UInt64 := 0
  deriving DecidableEq, Repr

structure HoverActionHandler where
  handled : UInt64 := 0
  deriving DecidableEq, Repr

namespace MoveActionHandler

variable [FloatScalar F]

/-- `read_f32_le`, at an offset into the parameters. -/
def readF32Le (a : Action F) (offset : ℕ) : F :=
  FloatScalar.ofBits (getU32 (a.params.toList.drop offset))

/-- The body of the loop. -/
def handle (work : MoveActionHandler × VelocityComponent F) (a : Action F) :
    MoveActionHandler × VelocityComponent F :=
  if a.type ≠ actions.MOVE then work
  else (⟨work.1.handled + 1⟩, ⟨readF32Le a 0, readF32Le a 4, readF32Le a 8⟩)

def tick (sys : MoveActionHandler) (aq : ActionQueueComponent F) (vel : VelocityComponent F) :
    MoveActionHandler × VelocityComponent F :=
  aq.validatedActions.foldl handle (sys, vel)

/-- Without a `MOVE` nothing moves. -/
theorem tick_of_no_move {sys : MoveActionHandler} {aq : ActionQueueComponent F}
    {vel : VelocityComponent F} (h : ∀ a ∈ aq.validatedActions, a.type ≠ actions.MOVE) :
    sys.tick aq vel = (sys, vel) := by
  unfold tick
  generalize aq.validatedActions = as at h ⊢
  induction as with
  | nil => rfl
  | cons a as ih =>
    rw [List.foldl_cons, handle, if_pos (h a List.mem_cons_self)]
    exact ih fun b hb => h b (List.mem_cons_of_mem a hb)

end MoveActionHandler

namespace TransmitActionHandler

/-- The message of a `TRANSMIT` action: type and sequence number, then the payload, filled up with
zeros. -/
def message (selfHid : HierarchicalID) (syncedTimeS : F) (a : Action F) : Message F where
  sender := selfHid
  recipient := a.target
  type := getU32 a.params.toList
  seq := getU32 (a.params.toList.drop 4)
  timestampS := syncedTimeS
  payload := (bytes 128).get (a.params.toList.drop 8)

/-- The body of the loop; a message is sent by putting it at the end. -/
def handle (selfHid : HierarchicalID) (syncedTimeS : F)
    (work : TransmitActionHandler × List (Message F)) (a : Action F) :
    TransmitActionHandler × List (Message F) :=
  if a.type ≠ actions.TRANSMIT then work
  else (⟨work.1.handled + 1⟩, work.2 ++ [message selfHid syncedTimeS a])

/-- `tick`, on a transport that supports messages, with the messages it sends. -/
def tick (sys : TransmitActionHandler) (selfHid : HierarchicalID) (syncedTimeS : F)
    (aq : ActionQueueComponent F) : TransmitActionHandler × List (Message F) :=
  aq.validatedActions.foldl (handle selfHid syncedTimeS) (sys, [])

/-- The actions it acts on. -/
def transmits (aq : ActionQueueComponent F) : List (Action F) :=
  aq.validatedActions.filter fun a => a.type = actions.TRANSMIT

variable {selfHid : HierarchicalID} {syncedTimeS : F} {aq : ActionQueueComponent F}

/-- **One message for each `TRANSMIT`**, in order. -/
theorem tick_eq (sys : TransmitActionHandler) : sys.tick selfHid syncedTimeS aq =
    (⟨sys.handled + UInt64.ofNat (transmits aq).length⟩,
      (transmits aq).map (message selfHid syncedTimeS)) := by
  suffices h : ∀ (as : List (Action F)) (work : TransmitActionHandler × List (Message F)),
      as.foldl (handle selfHid syncedTimeS) work =
        (⟨work.1.handled
            + UInt64.ofNat (as.filter fun a => a.type = actions.TRANSMIT).length⟩,
          work.2 ++ (as.filter fun a => a.type = actions.TRANSMIT).map
            (message selfHid syncedTimeS)) from h aq.validatedActions (sys, [])
  intro as
  induction as with
  | nil =>
    intro work
    simp
  | cons a as ih =>
    intro work
    rw [List.foldl_cons, ih, handle]
    by_cases ha : a.type = actions.TRANSMIT
    · simp [ha, UInt64.add_assoc, UInt64.add_comm]
    · simp [ha]

end TransmitActionHandler

namespace HoverActionHandler

/-- The body of the loop. -/
def handle (sys : HoverActionHandler) (a : Action F) : HoverActionHandler :=
  if a.type = actions.IDLE ∨ a.type = actions.HOVER then ⟨sys.handled + 1⟩ else sys

def tick (sys : HoverActionHandler) (aq : ActionQueueComponent F) : HoverActionHandler :=
  aq.validatedActions.foldl handle sys

end HoverActionHandler

end MithAtomas
