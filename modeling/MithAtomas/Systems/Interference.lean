import MithAtomas.Core.WorldFootprint

/-!
# Which shipped systems interfere

Two systems without a hazard may run at the same time, so their descriptors should cover whatever
could make their order matter. Of the pairs without a hazard all but two are apart
(`ShippedSystem.apart_of_not_haveHazard`). The two share a field of the world that is no component
and no resource:

* `PartitionMergeSystem` opens the merge window and `TaskAllocSystem` looks at it;
* `ClockSyncSystem` moves the clock offset and `TransmitActionHandler` stamps messages with it.

`ShippedSystem.Interfere` says, of the world before the ticks, when that makes a difference.
-/

namespace MithAtomas

variable {F U : Type} [FloatScalar F] {auth : Option SignatureScheme}

namespace World

variable (w : World F U)

/-! ### The merge window -/

/-- `TaskAllocSystem`'s decision to switch, if a merge is on or not. -/
def switchesIf (isMerging : Bool) : Bool :=
  TaskAllocSystem.switches w.taskAlloc.params
    (TaskAllocSystem.candidate w.taskAlloc.params w.role w.neighbourTable.entries) w.role isMerging
    (w.taskAlloc.timeSinceLastSwitchS + w.context.deltaTimeS)

/-- `PartitionMergeSystem` is about to see a heal. -/
def heals : Bool :=
  w.partitionMerge.heals (UInt32.ofNat w.neighbourTable.entries.length)

/-- The window that a heal opens would change the decision to switch. -/
def MergeDecides : Prop :=
  w.heals = true ∧
    w.switchesIf w.isMerging ≠ w.switchesIf (decide (0 < w.partitionMerge.params.mergeWindowS))

omit [FloatScalar F] in
theorem mergeWindow_partitionMergeTick : w.partitionMergeTick.mergeWindowRemainingS
    = if w.heals then w.partitionMerge.params.mergeWindowS else w.mergeWindowRemainingS := by
  simp only [partitionMergeTick, PartitionMergeSystem.tick, heals]
  exact apply_ite Prod.snd _ _ _

/-- The order of the two shows only in the role, and there only in the decision to switch. -/
theorem partitionMerge_taskAlloc_iff :
    w.taskAllocTick.partitionMergeTick = w.partitionMergeTick.taskAllocTick ↔
      w.switchesIf w.isMerging = w.switchesIf w.partitionMergeTick.isMerging := by
  have hdecides := TaskAllocSystem.tick_eq_tick_iff w.taskAlloc w.neighbourTable.entries w.role
    w.context.deltaTimeS w.isMerging w.partitionMergeTick.isMerging
  refine Iff.trans ?_ hdecides
  constructor
  · intro h
    have halloc := congrArg World.taskAlloc h
    have hrole := congrArg World.role h
    exact Prod.ext halloc hrole
  · intro h
    show _ = { w.partitionMergeTick with
      taskAlloc := (w.taskAlloc.tick w.neighbourTable.entries w.partitionMergeTick.isMerging w.role
        w.context.deltaTimeS).1
      role := (w.taskAlloc.tick w.neighbourTable.entries w.partitionMergeTick.isMerging w.role
        w.context.deltaTimeS).2 }
    rw [← h]
    rfl

/-- **When the order of `PartitionMergeSystem` and `TaskAllocSystem` does not matter.** -/
theorem partitionMerge_taskAlloc_commute_iff :
    w.taskAllocTick.partitionMergeTick = w.partitionMergeTick.taskAllocTick ↔ ¬ w.MergeDecides := by
  rw [partitionMerge_taskAlloc_iff, MergeDecides]
  cases hheals : w.heals with
  | false =>
    have hmerging : w.partitionMergeTick.isMerging = w.isMerging := by
      rw [isMerging, isMerging, mergeWindow_partitionMergeTick, hheals]
      rfl
    rw [hmerging]
    simp
  | true =>
    have hmerging : w.partitionMergeTick.isMerging
        = decide (0 < w.partitionMerge.params.mergeWindowS) := by
      rw [isMerging, mergeWindow_partitionMergeTick, hheals]
      rfl
    rw [hmerging]
    simp

/-! ### The clock offset -/

/-- The correction that `ClockSyncSystem` is about to make. -/
def clockCorrection : Option F :=
  ClockSyncSystem.correction w.clockSync.params w.neighbourTable.entries w.syncedTimeS

/-- `TransmitActionHandler` is about to send, and the synced time is about to move. -/
def ClockStamps : Prop :=
  (usable w.messageTransport = true ∧ TransmitActionHandler.transmits w.actionQueue ≠ []) ∧
    ∃ step, w.clockCorrection = some step ∧
      w.context.elapsedTimeS + (w.clockOffsetS + step) ≠ w.syncedTimeS

theorem syncedTime_clockSyncTick : w.clockSyncTick.syncedTimeS = w.context.elapsedTimeS
    + (w.clockCorrection.map (w.clockOffsetS + ·)).getD w.clockOffsetS := by
  show w.context.elapsedTimeS + (w.clockSync.tick w.neighbourTable.entries w.syncedTimeS
    w.clockOffsetS).2 = _
  rw [ClockSyncSystem.tick_snd]
  rfl

/-- The messages a `TRANSMIT` makes, with the time they carry. -/
def transmitMessages (syncedTimeS : F) : List (Packet F) :=
  ((TransmitActionHandler.transmits w.actionQueue).map
    (TransmitActionHandler.message w.identity syncedTimeS)).map .message

omit [FloatScalar F] in
/-- Messages of different times differ. -/
theorem transmitMessages_inj {t t' : F} : w.transmitMessages t = w.transmitMessages t' ↔
    TransmitActionHandler.transmits w.actionQueue = [] ∨ t = t' := by
  unfold transmitMessages
  constructor
  · intro h
    cases htransmits : TransmitActionHandler.transmits w.actionQueue with
    | nil => exact .inl rfl
    | cons a as =>
      rw [htransmits, List.map_cons, List.map_cons, List.map_cons, List.map_cons] at h
      have hmessage := Packet.message.inj (List.head_eq_of_cons_eq h)
      exact .inr (congrArg Message.timestampS hmessage)
  · rintro (hnil | rfl)
    · rw [hnil]
      rfl
    · rfl

theorem transmitTick_eq (h : usable w.messageTransport = true) : w.transmitTick =
    { w with
      transmit := ⟨w.transmit.handled
        + UInt64.ofNat (TransmitActionHandler.transmits w.actionQueue).length⟩
      sent := w.sent ++ w.transmitMessages w.syncedTimeS } := by
  unfold transmitTick sendTransmits transmitMessages
  rw [if_pos h]
  simp only [TransmitActionHandler.tick_eq]

/-- **When the order of `ClockSyncSystem` and `TransmitActionHandler` does not matter.** -/
theorem clockSync_transmit_commute_iff :
    w.transmitTick.clockSyncTick = w.clockSyncTick.transmitTick ↔ ¬ w.ClockStamps := by
  by_cases husable : usable w.messageTransport = true
  · have hsync : w.syncedTimeS = w.clockSyncTick.syncedTimeS ↔
        ¬ ∃ step, w.clockCorrection = some step ∧
          w.context.elapsedTimeS + (w.clockOffsetS + step) ≠ w.syncedTimeS := by
      rw [syncedTime_clockSyncTick]
      cases w.clockCorrection with
      | none => simp [syncedTimeS]
      | some step => simp [eq_comm]
    have hsent : w.transmitTick.clockSyncTick = w.clockSyncTick.transmitTick ↔
        w.transmitMessages w.syncedTimeS = w.transmitMessages w.clockSyncTick.syncedTimeS := by
      rw [transmitTick_eq w husable, transmitTick_eq w.clockSyncTick husable]
      constructor
      · intro h
        exact List.append_cancel_left (congrArg World.sent h)
      · intro h
        -- all but the packets sent is equal by computation
        apply World.ext <;> first | rfl | exact congrArg (w.sent ++ ·) h
    rw [hsent, transmitMessages_inj, hsync, ClockStamps, not_and_or, not_and_or, not_ne_iff]
    simp [husable]
  · have hno : ¬ w.ClockStamps := fun h => husable h.1.1
    refine iff_of_true ?_ hno
    have h₁ : w.transmitTick = w := if_neg husable
    have h₂ : w.clockSyncTick.transmitTick = w.clockSyncTick := if_neg husable
    rw [h₁, h₂]

end World

/-! ### All pairs -/

namespace ShippedSystem

/-- The two systems share the merge window. -/
def ShareMergeWindow (a b : ShippedSystem) : Prop :=
  (a = partitionMerge ∧ b = taskAlloc) ∨ (a = taskAlloc ∧ b = partitionMerge)

/-- The two systems share the clock offset. -/
def ShareClock (a b : ShippedSystem) : Prop :=
  (a = clockSync ∧ b = transmit) ∨ (a = transmit ∧ b = clockSync)

/-- In the world `w` the order of the two systems makes a difference. -/
def Interfere (a b : ShippedSystem) (w : World F U) : Prop :=
  (ShareMergeWindow a b ∧ w.MergeDecides) ∨ (ShareClock a b ∧ w.ClockStamps)

instance (a b : ShippedSystem) : Decidable (ShareMergeWindow a b) :=
  inferInstanceAs (Decidable (_ ∨ _))

instance (a b : ShippedSystem) : Decidable (ShareClock a b) :=
  inferInstanceAs (Decidable (_ ∨ _))

/-- **The descriptors cover all other pairs**: without a hazard they are apart. -/
theorem apart_of_not_haveHazard : ∀ a b : ShippedSystem, a ≠ b →
    haveHazard a.describe b.describe = false → ¬ ShareMergeWindow a b → ¬ ShareClock a b →
    Apart a b := by
  decide +kernel

/-- **When two shipped systems without a hazard commute.** -/
theorem shipped_systems_commute_iff (a b : ShippedSystem) (hab : a ≠ b)
    (hhazard : haveHazard a.describe b.describe = false) (w : World F U) :
    a.tick auth (b.tick auth w) = b.tick auth (a.tick auth w) ↔ ¬ Interfere a b w := by
  by_cases hmerge : ShareMergeWindow a b
  · have hclock : ¬ ShareClock a b := by
      revert a b
      decide
    have hinterfere : Interfere a b w ↔ w.MergeDecides := by
      simp only [Interfere, hmerge, hclock, true_and, false_and, or_false]
    rw [hinterfere, ← w.partitionMerge_taskAlloc_commute_iff]
    obtain ⟨rfl, rfl⟩ | ⟨rfl, rfl⟩ := hmerge
    · exact Iff.rfl
    · exact eq_comm
  · by_cases hclock : ShareClock a b
    · have hinterfere : Interfere a b w ↔ w.ClockStamps := by
        simp only [Interfere, hmerge, hclock, true_and, false_and, false_or]
      rw [hinterfere, ← w.clockSync_transmit_commute_iff]
      obtain ⟨rfl, rfl⟩ | ⟨rfl, rfl⟩ := hclock
      · exact Iff.rfl
      · exact eq_comm
    · refine iff_of_true ?_ ?_
      · exact (apart_of_not_haveHazard a b hab hhazard hmerge hclock).commute w
      · rintro (⟨h, -⟩ | ⟨h, -⟩)
        · exact hmerge h
        · exact hclock h

/-- A robot that has just begun to hear two peers, and would like to change to role 1 but has not
had its role for long. -/
def healingWorld : World ℚ Unit :=
  { World.init .default {} none [] none none () with
    context := ⟨1, 1, 1 / 20, 20⟩
    neighbourTable := (NeighbourTable.empty.upsert { StateVector.empty with id := ⟨1, .nil⟩ } 1
      none).upsert { StateVector.empty with id := ⟨2, .nil⟩ } 1 none
    taskAlloc :=
      { params :=
          { TaskAllocSystem.Params.default with desiredRatios := #v[0, 1, 0, 0, 0, 0, 0, 0] }
        timeSinceLastSwitchS := 0 } }

/-- **An undeclared access that shows.** With the merge window open first, the robot changes its
role; otherwise it does not. -/
theorem healing_order_matters :
    partitionMerge ≠ taskAlloc ∧ haveHazard partitionMerge.describe taskAlloc.describe = false ∧
    partitionMerge.tick none (taskAlloc.tick none healingWorld)
      ≠ taskAlloc.tick none (partitionMerge.tick none healingWorld) := by
  refine ⟨by decide, by decide, fun h => ?_⟩
  have hrole := congrArg World.role h
  exact absurd hrole (by decide +kernel)

theorem healing_commute_iff :
    haveHazard partitionMerge.describe taskAlloc.describe = false ∧
    (partitionMerge.tick none (taskAlloc.tick none healingWorld)
        = taskAlloc.tick none (partitionMerge.tick none healingWorld) ↔
      ¬ Interfere partitionMerge taskAlloc healingWorld) :=
  ⟨by decide, shipped_systems_commute_iff partitionMerge taskAlloc (by decide) (by decide)
    healingWorld⟩

end ShippedSystem

end MithAtomas
