import MithAtomas.Systems.FaultHysteresis

/-!
# Every fault is deducted once

`report_fault` may be called by any thread at any time, also while `FaultMonitorSystem` ticks. What
counts is the moment in which the tick reads the counter (`FaultEvent.read`): the rest of the tick
(`World.finishFaultTick`) works with the value that was read, and what is reported meanwhile is left
to the next tick.

`FaultTally` is the bookkeeping of a run: how many faults have been reported, how many of them the
last read has seen, and how many the health has been charged with. `Deducts.step` relates it to the
counters, which are differences of 64-bit words, and to the health, which stops at zero.
-/

namespace MithAtomas

open Runs

variable {F U : Type}

/-! ### One tick -/

/-- The deduction as a subtraction that stops at zero. -/
theorem FaultMonitorSystem.deduct_toNat (sys : FaultMonitorSystem) (faultCount : UInt64)
    (health : HealthComponent) : (sys.deduct faultCount health).value.toNat
      = health.value.toNat
        - ((faultCount - sys.lastFaultCount) * sys.params.decrementPerFault.toUInt64).toNat := by
  unfold deduct
  simp only
  generalize hdrop : (faultCount - sys.lastFaultCount) *
    sys.params.decrementPerFault.toUInt64 = drop
  split
  · split
    · next hlarge =>
      have hle : health.value.toNat ≤ drop.toNat := by
        rw [← UInt8.toNat_toUInt64]
        exact UInt64.le_iff_toNat_le.mp hlarge
      exact (Nat.sub_eq_zero_of_le hle).symm
    · next hsmall =>
      have hlt : drop.toNat < health.value.toNat := by
        rw [← UInt8.toNat_toUInt64]
        exact UInt64.lt_iff_toNat_lt.mp (UInt64.not_le.mp hsmall)
      have hhealth := health.value.toNat_lt
      rw [UInt64.toNat_toUInt8,
        UInt64.toNat_sub_of_le _ _ (UInt64.le_of_lt (UInt64.not_le.mp hsmall)),
        UInt8.toNat_toUInt64, Nat.mod_eq_of_lt (by omega)]
  · next hnone =>
    -- no new faults, so nothing is deducted
    have hzero : faultCount - sys.lastFaultCount = 0 :=
      UInt64.le_zero_iff.mp (UInt64.not_lt.mp hnone)
    rw [hzero, UInt64.zero_mul] at hdrop
    rw [← hdrop]
    rfl

/-- A difference of counters, charged at `decrement` for each fault, does not wrap. -/
theorem toNat_charge {seen now : ℕ} (hle : seen ≤ now) (decrement : UInt8)
    (hbound : now * decrement.toNat < 2 ^ 64) :
    ((UInt64.ofNat now - UInt64.ofNat seen) * decrement.toUInt64).toNat
      = (now - seen) * decrement.toNat := by
  have hdecrement : decrement.toUInt64 = UInt64.ofNat decrement.toNat :=
    UInt64.toNat_inj.mp (by simp)
  have hlt : (now - seen) * decrement.toNat < 2 ^ 64 :=
    (Nat.mul_le_mul_right _ (Nat.sub_le _ _)).trans_lt hbound
  rw [hdecrement, ← UInt64.ofNat_sub hle, ← UInt64.ofNat_mul, UInt64.toNat_ofNat_of_lt' hlt]

/-! ### Ticks and reports in any order -/

/-- `tick`, from the moment in which it has read the counter. -/
def World.finishFaultTick (w : World F U) (nowCount : UInt64) : World F U :=
  let (faultMonitor, health, mask, state) :=
    w.faultMonitor.tick nowCount w.health w.mask w.state
  { w with faultMonitor, health, mask, state }

/-- A tick in which nothing else happens. -/
theorem World.faultMonitorTick_eq (w : World F U) :
    w.faultMonitorTick = w.finishFaultTick w.faultCount := rfl

/-- A robot, and the count that a tick of its fault monitor has read. -/
structure FaultRobot (F U : Type) where
  world : World F U
  read : Option UInt64 := none

inductive FaultEvent where
  | reportFault
  /-- a tick of `FaultMonitorSystem` reads the counter -/
  | read
  /-- and finishes -/
  | finish
  /-- anything else -/
  | other
  deriving DecidableEq, Repr

/-- Nobody but `FaultMonitorSystem` writes the health. -/
inductive FaultStep (r : FaultRobot F U) : FaultEvent → FaultRobot F U → Prop
  | reportFault : FaultStep r .reportFault { r with world := r.world.reportFault }
  | read (hbetween : r.read = none) :
      FaultStep r .read { r with read := some r.world.faultCount }
  | finish {nowCount : UInt64} (hread : r.read = some nowCount) :
      FaultStep r .finish ⟨r.world.finishFaultTick nowCount, none⟩
  | other {w : World F U} (hhealth : w.health = r.world.health)
      (hcount : w.faultCount = r.world.faultCount)
      (hmonitor : w.faultMonitor = r.world.faultMonitor) :
      FaultStep r .other { r with world := w }

/-! ### The bookkeeping -/

/-- How many faults have been reported, seen by the last read, and deducted. -/
structure FaultTally where
  reported : ℕ := 0
  seen : ℕ := 0
  deducted : ℕ := 0

def FaultTally.next (t : FaultTally) : FaultEvent → FaultTally
  | .reportFault => { t with reported := t.reported + 1 }
  | .read => { t with seen := t.reported }
  | .finish => { t with deducted := t.seen }
  | .other => t

/-- The tally of the events `ls`. -/
def faultTally (ls : List FaultEvent) : FaultTally :=
  ls.foldl FaultTally.next {}

theorem faultTally_concat (ls : List FaultEvent) (l : FaultEvent) :
    faultTally (ls ++ [l]) = (faultTally ls).next l :=
  List.foldl_concat ..

theorem reported_faultTally (ls : List FaultEvent) :
    (faultTally ls).reported = ls.count .reportFault := by
  induction ls using List.reverseRecOn with
  | nil => rfl
  | append_singleton ls l ih =>
    rw [faultTally_concat, List.count_append]
    cases l <;> simp [FaultTally.next, ih]

/-- Until the next read, what was seen stays what it was. -/
theorem seen_foldl {ls : List FaultEvent} (h : .read ∉ ls) (t : FaultTally) :
    (ls.foldl FaultTally.next t).seen = t.seen := by
  induction ls generalizing t with
  | nil => rfl
  | cons l ls ih =>
    rw [List.foldl_cons, ih fun hmem => h (List.mem_cons_of_mem _ hmem)]
    cases l with
    | read => exact absurd List.mem_cons_self h
    | reportFault | finish | other => rfl

/-- **What a finished tick has deducted**: the faults from before its read. -/
theorem deducted_faultTally {before during : List FaultEvent} (h : .read ∉ during) :
    (faultTally (before ++ .read :: during ++ [.finish])).deducted = before.count .reportFault := by
  have hsplit : faultTally (before ++ .read :: during)
      = during.foldl FaultTally.next ((faultTally before).next .read) := by
    unfold faultTally
    rw [List.foldl_append, List.foldl_cons]
  rw [faultTally_concat, hsplit, ← reported_faultTally]
  exact seen_foldl h _

section Runs

variable {params : FaultMonitorSystem.Params} {w₀ : World F U} {r r' : FaultRobot F U}
  {t : FaultTally} {l : FaultEvent}

/-- **The tally and the robot**, which began with the health `health`. -/
structure Deducts (params : FaultMonitorSystem.Params) (health : HealthComponent) (t : FaultTally)
    (r : FaultRobot F U) : Prop where
  faultCount : r.world.faultCount = UInt64.ofNat t.reported
  lastFaultCount : r.world.faultMonitor.lastFaultCount = UInt64.ofNat t.deducted
  read : ∀ nowCount, r.read = some nowCount → nowCount = UInt64.ofNat t.seen
  deducted_le : t.deducted ≤ t.seen
  seen_le : t.seen ≤ t.reported
  health : t.deducted * params.decrementPerFault.toNat < 2 ^ 64 →
    r.world.health.value.toNat
      = health.value.toNat - t.deducted * params.decrementPerFault.toNat
  params : r.world.faultMonitor.params = params

theorem World.lastFaultCount_finishFaultTick (w : World F U) (nowCount : UInt64) :
    (w.finishFaultTick nowCount).faultMonitor.lastFaultCount = nowCount ∧
      (w.finishFaultTick nowCount).faultMonitor.params = w.faultMonitor.params := by
  unfold finishFaultTick FaultMonitorSystem.tick
  simp only
  split
  · exact ⟨rfl, rfl⟩
  · split <;> exact ⟨rfl, rfl⟩

theorem World.health_finishFaultTick (w : World F U) (nowCount : UInt64) :
    (w.finishFaultTick nowCount).health = w.faultMonitor.deduct nowCount w.health := by
  unfold finishFaultTick FaultMonitorSystem.tick
  simp only
  split
  · rfl
  · split <;> rfl

theorem Deducts.step {health : HealthComponent} (h : Deducts params health t r)
    (hst : FaultStep r l r') : Deducts params health (t.next l) r' := by
  cases hst with
  | reportFault =>
    refine ⟨?_, h.lastFaultCount, h.read, h.deducted_le, h.seen_le.trans (Nat.le_succ _), h.health,
      h.params⟩
    show r.world.faultCount + 1 = UInt64.ofNat (t.reported + 1)
    rw [h.faultCount, UInt64.ofNat_add]
    rfl
  | read hbetween =>
    refine ⟨h.faultCount, h.lastFaultCount, ?_, h.deducted_le.trans h.seen_le, le_rfl, h.health,
      h.params⟩
    rintro nowCount ⟨⟩
    exact h.faultCount
  | @finish nowCount hread =>
    obtain ⟨hlast, hparams⟩ := r.world.lastFaultCount_finishFaultTick nowCount
    have hnow := h.read nowCount hread
    refine ⟨h.faultCount, hlast.trans hnow, by rintro nowCount' ⟨⟩, le_rfl, h.seen_le, ?_,
      hparams.trans h.params⟩
    intro hbound
    change t.seen * params.decrementPerFault.toNat < 2 ^ 64 at hbound
    -- the earlier ticks have deducted a part, and this one the difference
    have hbefore := h.health ((Nat.mul_le_mul_right _ h.deducted_le).trans_lt hbound)
    have hcharge := toNat_charge h.deducted_le params.decrementPerFault hbound
    calc (r.world.finishFaultTick nowCount).health.value.toNat
        = r.world.health.value.toNat
            - (t.seen - t.deducted) * params.decrementPerFault.toNat := by
          rw [World.health_finishFaultTick, FaultMonitorSystem.deduct_toNat, h.lastFaultCount,
            h.params, hnow, hcharge]
      _ = health.value.toNat - (t.deducted * params.decrementPerFault.toNat
            + (t.seen - t.deducted) * params.decrementPerFault.toNat) := by
          rw [hbefore, Nat.sub_sub]
      _ = health.value.toNat - t.seen * params.decrementPerFault.toNat := by
          rw [← Nat.add_mul, Nat.add_sub_cancel' h.deducted_le]
  | other hhealth hcount hmonitor =>
    exact ⟨hcount.trans h.faultCount, hmonitor ▸ h.lastFaultCount, h.read, h.deducted_le, h.seen_le,
      hhealth ▸ h.health, hmonitor ▸ h.params⟩

theorem Deducts.of_run (hfresh : w₀.faultMonitor = { params }) (hzero : w₀.faultCount = 0)
    {ls : List FaultEvent} (hrun : Run FaultStep ⟨w₀, none⟩ ls r) :
    Deducts params w₀.health (faultTally ls) r := by
  induction hrun with
  | nil =>
    refine ⟨hzero, ?_, by rintro nowCount ⟨⟩, le_rfl, le_rfl, ?_, ?_⟩
    · rw [hfresh]
      rfl
    · intro _
      show w₀.health.value.toNat = w₀.health.value.toNat - 0 * _
      rw [Nat.zero_mul, Nat.sub_zero]
    · rw [hfresh]
  | snoc _ hst ih =>
    rw [faultTally_concat]
    exact ih.step hst

/-- **Every fault is deducted once.** After a tick of a new `FaultMonitorSystem`, whatever ticks
came before it and however the calls of `report_fault` fell, the health is what is left of the first
one when it is charged once for every call from before the tick's read. -/
theorem faults_deducted_once (hfresh : w₀.faultMonitor = { params }) (hzero : w₀.faultCount = 0)
    {before during : List FaultEvent} (hduring : .read ∉ during)
    (hrun : Run FaultStep ⟨w₀, none⟩ (before ++ .read :: during ++ [.finish]) r)
    (hbound : (before ++ .read :: during ++ [.finish] : List FaultEvent).count .reportFault
      * params.decrementPerFault.toNat < 2 ^ 64) :
    (r.world.health.value.toNat : ℤ)
      = max 0 ((w₀.health.value.toNat : ℤ)
          - (params.decrementPerFault.toNat : ℤ) * (before.count .reportFault : ℕ)) := by
  have h := Deducts.of_run hfresh hzero hrun
  have hdeducted : (faultTally (before ++ .read :: during ++ [.finish])).deducted
      = before.count .reportFault := deducted_faultTally hduring
  have hle : before.count .reportFault
      ≤ (before ++ .read :: during ++ [.finish] : List FaultEvent).count .reportFault := by
    rw [List.append_assoc, List.count_append]
    exact Nat.le_add_right _ _
  have hhealth := h.health (by
    rw [hdeducted]
    exact (Nat.mul_le_mul_right _ hle).trans_lt hbound)
  rw [hhealth, hdeducted, Nat.mul_comm, ← Nat.cast_mul]
  omega

end Runs

/-- Two faults before the read, and one after it. -/
theorem two_of_three_deducted :
    ∃ r : FaultRobot ℚ Unit,
      Run FaultStep ⟨illWorld, none⟩ ([.reportFault, .reportFault] ++ .read :: [.reportFault] ++
        [.finish]) r ∧ (r.world.health.value.toNat : ℤ) = max 0 (30 - 5 * 2) := by
  have hrun : Run FaultStep ⟨illWorld, none⟩ ([.reportFault, .reportFault] ++ .read ::
      [.reportFault] ++ [.finish]) _ :=
    ((((Run.single FaultStep.reportFault).snoc .reportFault).snoc (.read rfl)).snoc
      .reportFault).snoc (.finish rfl)
  exact ⟨_, hrun, (faults_deducted_once rfl rfl (by decide) hrun (by decide)).trans (by decide)⟩

end MithAtomas
