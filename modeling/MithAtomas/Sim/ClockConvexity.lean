import MithAtomas.Comms.NeighbourTableHistory
import MithAtomas.Framework.Averaging
import MithAtomas.Framework.Runs
import MithAtomas.Sim.ClockAgreement

/-!
# Clocks are moved towards each other

Ticks of `ClockSyncSystem` among any number of robots, in any order, while time stands still: each
tick sees the current synced times of some of the other robots. `tick_toward_iff` says when it does
not take the clock past their mean: the sum of the gaps is divided by a count of 32 bits, so the
count has to be good enough (`Averages`; it is for fewer than 2^32 entries, `averages_of_lt`). What
follows for all orders of ticks is a matter of `Averaging`.
-/

namespace MithAtomas

open Runs Averaging ClockSyncSystem

namespace ClockSyncSystem

variable {sys : ClockSyncSystem ℚ} {entries : List (Entry ℚ)}

/-- The clocks that the entries tell. -/
def clocks (entries : List (Entry ℚ)) : List ℚ :=
  entries.map Entry.syncTimeS

/-- The count of the entries is good enough to divide by: the tick makes no step, or the mean is
there already, or the rate makes up for the count, or the cap does. -/
def Averages (params : Params ℚ) (entries : List (Entry ℚ)) (mySync : ℚ) : Prop :=
  UInt32.ofNat entries.length = 0 ∨ mean (clocks entries) = mySync ∨
    params.adjustmentRate * entries.length ≤ ((UInt32.ofNat entries.length).toNat : ℚ) ∨
    (0 < params.maxStepS ∧ params.maxStepS ≤ |mean (clocks entries) - mySync|)

/-- `std::clamp` of an interval around zero. -/
theorem clamp_eq (v : ℚ) {c : ℚ} (hc : 0 < c) : clamp v (-c) c = max (-c) (min v c) := by
  unfold clamp
  split
  · next hlt => rw [min_eq_left (by linarith), max_eq_left hlt.le]
  · next hle =>
    split
    · next hlt => rw [min_eq_right hlt.le, max_eq_right (by linarith)]
    · next hle' => rw [min_eq_left (not_lt.mp hle'), max_eq_right (not_lt.mp hle)]

/-- The fraction of the gap that a step makes, before the cap. -/
def fraction (params : Params ℚ) (entries : List (Entry ℚ)) : ℚ :=
  params.adjustmentRate * entries.length / ((UInt32.ofNat entries.length).toNat : ℚ)

/-- **A step** is that fraction of the gap, capped. -/
theorem step_eq (params : Params ℚ) (hne : entries ≠ []) (mySync : ℚ) :
    step params entries (UInt32.ofNat entries.length) mySync =
      if 0 < params.maxStepS then
        max (-params.maxStepS)
          (min (fraction params entries * (mean (clocks entries) - mySync)) params.maxStepS)
      else fraction params entries * (mean (clocks entries) - mySync) := by
  have hclocks : clocks entries ≠ [] := fun h => hne (List.map_eq_nil_iff.mp h)
  have hsum : (entries.map fun it => it.syncTimeS - mySync).sum
      = entries.length * (mean (clocks entries) - mySync) := by
    have hgaps := sum_gaps hclocks mySync
    unfold clocks at hgaps ⊢
    rwa [List.map_map, List.length_map] at hgaps
  have hfraction : params.adjustmentRate * ((entries.map fun it => it.syncTimeS - mySync).sum
      / ((UInt32.ofNat entries.length).toNat : ℚ))
      = fraction params entries * (mean (clocks entries) - mySync) := by
    rw [hsum, fraction]
    ring
  unfold step
  simp only [foldl_gaps, hfraction]
  split
  · next hc => exact clamp_eq _ hc
  · rfl

/-- The offset after a tick. -/
theorem offset_tick (hrate : 0 < sys.params.adjustmentRate) (entries : List (Entry ℚ))
    (mySync clockOffsetS : ℚ) : (sys.tick entries mySync clockOffsetS).2
      = clockOffsetS + if UInt32.ofNat entries.length = 0 then 0
          else step sys.params entries (UInt32.ofNat entries.length) mySync := by
  rw [tick_snd]
  unfold correction
  by_cases hn : UInt32.ofNat entries.length = 0
  · simp only [hn, or_true, if_true, Option.map_none, Option.getD_none, add_zero]
  · simp only [not_le.mpr hrate, hn, or_self, if_false]
    split
    · rfl
    · next hzero =>
      have hstep : step sys.params entries (UInt32.ofNat entries.length) mySync = 0 :=
        abs_nonpos_iff.mp (not_lt.mp hzero)
      rw [hstep, add_zero]
      rfl

/-- The count of some entries, as it is divided by. -/
theorem count_pos (hn : UInt32.ofNat entries.length ≠ 0) :
    0 < ((UInt32.ofNat entries.length).toNat : ℚ) := by
  have hne : (UInt32.ofNat entries.length).toNat ≠ 0 := fun h => hn (UInt32.toNat_inj.mp h)
  exact_mod_cast Nat.pos_of_ne_zero hne

/-- **A tick does not go past the mean** if and only if the count is good enough. -/
theorem tick_toward_iff (hrate : 0 < sys.params.adjustmentRate) (hne : entries ≠ [])
    (elapsedTimeS clockOffsetS : ℚ) :
    elapsedTimeS + (sys.tick entries (elapsedTimeS + clockOffsetS) clockOffsetS).2
        ∈ Set.uIcc (elapsedTimeS + clockOffsetS) (mean (clocks entries)) ↔
      Averages sys.params entries (elapsedTimeS + clockOffsetS) := by
  rw [offset_tick hrate, ← add_assoc, add_mem_uIcc_iff, step_eq _ hne]
  unfold Averages
  by_cases hn : UInt32.ofNat entries.length = 0
  · rw [if_pos hn]
    exact iff_of_true Set.left_mem_uIcc (.inl hn)
  · have hcount := count_pos hn
    have hlength : (0 : ℚ) < entries.length := Nat.cast_pos.mpr (List.length_pos_iff.mpr hne)
    have hfraction : 0 < fraction sys.params entries :=
      div_pos (mul_pos hrate hlength) hcount
    have hle : fraction sys.params entries ≤ 1 ↔ sys.params.adjustmentRate * entries.length
        ≤ ((UInt32.ofNat entries.length).toNat : ℚ) := div_le_one hcount
    rw [if_neg hn, or_iff_right hn]
    by_cases hcap : 0 < sys.params.maxStepS
    · rw [if_pos hcap, clamped_mem_iff hfraction hcap, sub_eq_zero, hle, and_iff_right hcap]
    · rw [if_neg hcap, fraction_mem_iff hfraction, sub_eq_zero, hle]
      simp only [hcap, false_and, or_false]

/-- **The cap** holds in any case. -/
theorem abs_tick_le (hrate : 0 < sys.params.adjustmentRate) (hcap : 0 < sys.params.maxStepS)
    (entries : List (Entry ℚ)) (mySync clockOffsetS : ℚ) :
    |(sys.tick entries mySync clockOffsetS).2 - clockOffsetS| ≤ sys.params.maxStepS := by
  rw [offset_tick hrate, add_sub_cancel_left]
  split
  · rw [abs_zero]
    exact hcap.le
  · unfold step
    simp only [if_pos hcap, clamp_eq _ hcap]
    rw [abs_le]
    exact ⟨le_max_left _ _, max_le (by linarith) (min_le_right _ _)⟩

/-- **Fewer than 2^32 entries** are counted as they should. -/
theorem averages_of_lt {params : Params ℚ} (hrate : params.adjustmentRate ≤ 1)
    (hlt : entries.length < 2 ^ 32) (mySync : ℚ) : Averages params entries mySync := by
  have hcount : (UInt32.ofNat entries.length).toNat = entries.length := Nat.mod_eq_of_lt hlt
  refine .inr (.inr (.inl ?_))
  rw [hcount]
  exact mul_le_of_le_one_left (Nat.cast_nonneg _) hrate

end ClockSyncSystem

/-! ### Any number of robots -/

/-- The robots' clocks. Time does not advance. -/
structure ClockGroup (I : Type) where
  systems : I → ClockSyncSystem ℚ
  elapsedTimeS : I → ℚ
  clockOffsetS : I → ℚ

/-- A tick of one robot's system, which finds these entries. -/
structure GroupTick (I : Type) where
  robot : I
  entries : List (Entry ℚ)

namespace ClockGroup

variable {I : Type} [DecidableEq I]

omit [DecidableEq I] in
/-- `synced_time_s`. -/
def syncedTimeS (s : ClockGroup I) (i : I) : ℚ :=
  s.elapsedTimeS i + s.clockOffsetS i

def tick (s : ClockGroup I) (t : GroupTick I) : ClockGroup I :=
  let ticked := (s.systems t.robot).tick t.entries (s.syncedTimeS t.robot) (s.clockOffsetS t.robot)
  { s with
    systems := Function.update s.systems t.robot ticked.1
    clockOffsetS := Function.update s.clockOffsetS t.robot ticked.2 }

omit [DecidableEq I] in
/-- The entries tell the current synced times of some other robots. -/
def Observes (s : ClockGroup I) (t : GroupTick I) : Prop :=
  ∃ seen : List I, seen ≠ [] ∧ seen.Nodup ∧ t.robot ∉ seen ∧
    clocks t.entries = seen.map s.syncedTimeS

/-- Ticks that observe others. -/
def Step (s : ClockGroup I) (t : GroupTick I) (s' : ClockGroup I) : Prop :=
  s.Observes t ∧ s' = s.tick t

omit [DecidableEq I] in
/-- All rates are within their range. -/
def RatesWithin (s : ClockGroup I) : Prop :=
  ∀ i, 0 < (s.systems i).params.adjustmentRate ∧ (s.systems i).params.adjustmentRate ≤ 1

omit [DecidableEq I] in
/-- The count of the tick's entries is good enough. -/
def Counts (s : ClockGroup I) (t : GroupTick I) : Prop :=
  Averages (s.systems t.robot).params t.entries (s.syncedTimeS t.robot)

variable {s s' : ClockGroup I} {t : GroupTick I}

theorem params_tick (s : ClockGroup I) (t : GroupTick I) (i : I) :
    ((s.tick t).systems i).params = (s.systems i).params := by
  show (Function.update s.systems t.robot _ i).params = _
  by_cases hi : i = t.robot
  · subst hi
    rw [Function.update_self]
    exact ClockSyncSystem.params_tick _ _ _ _
  · rw [Function.update_of_ne hi]

theorem syncedTimeS_tick_of_ne (s : ClockGroup I) (t : GroupTick I) {i : I} (hi : i ≠ t.robot) :
    (s.tick t).syncedTimeS i = s.syncedTimeS i := by
  show s.elapsedTimeS i + Function.update s.clockOffsetS t.robot _ i = _
  rw [Function.update_of_ne hi]
  rfl

theorem syncedTimeS_tick_self (s : ClockGroup I) (t : GroupTick I) :
    (s.tick t).syncedTimeS t.robot = s.elapsedTimeS t.robot
      + ((s.systems t.robot).tick t.entries (s.syncedTimeS t.robot)
        (s.clockOffsetS t.robot)).2 := by
  show s.elapsedTimeS t.robot + (s.tick t).clockOffsetS t.robot = _
  unfold tick
  simp only [Function.update_self]

omit [DecidableEq I] in
theorem Observes.entries_ne_nil (h : s.Observes t) : t.entries ≠ [] := by
  obtain ⟨seen, hne, -, -, hclocks⟩ := h
  intro hnil
  rw [hnil] at hclocks
  exact hne (List.map_eq_nil_iff.mp hclocks.symm)

/-- **One tick.** The clock goes from where it was towards the mean, and not past it. -/
theorem Step.pull (h : Step s t s') (hrates : s.RatesWithin) (hcounts : s.Counts t) :
    Pull s.syncedTimeS s'.syncedTimeS t.robot (clocks t.entries) := by
  obtain ⟨hobserves, rfl⟩ := h
  refine ⟨fun hnil => hobserves.entries_ne_nil (List.map_eq_nil_iff.mp hnil), ?_, ?_,
    fun j hj => syncedTimeS_tick_of_ne s t hj⟩
  · obtain ⟨seen, -, -, -, hclocks⟩ := hobserves
    intro v hv
    rw [hclocks] at hv
    obtain ⟨j, -, rfl⟩ := List.mem_map.mp hv
    exact ⟨j, rfl⟩
  · rw [syncedTimeS_tick_self]
    exact (tick_toward_iff (hrates t.robot).1 hobserves.entries_ne_nil _ _).mpr hcounts

theorem Step.ratesWithin (h : Step s t s') (hrates : s.RatesWithin) : s'.RatesWithin := by
  obtain ⟨-, rfl⟩ := h
  intro i
  rw [params_tick]
  exact hrates i

omit [DecidableEq I] in
/-- A tick of some of at most 2^32 robots counts its entries as it should. -/
theorem Observes.counts [Fintype I] (h : s.Observes t) (hrates : s.RatesWithin)
    (hcard : Fintype.card I ≤ 2 ^ 32) : s.Counts t := by
  obtain ⟨seen, -, hnodup, hself, hclocks⟩ := h
  have hlength : t.entries.length = seen.length := by
    have hsame := congrArg List.length hclocks
    rwa [clocks, List.length_map, List.length_map] at hsame
  have hcons : (t.robot :: seen).length ≤ Fintype.card I :=
    (List.nodup_cons.mpr ⟨hself, hnodup⟩).length_le_card
  rw [List.length_cons] at hcons
  exact averages_of_lt (hrates t.robot).2 (by omega) _

/-! ### Runs -/

variable [Fintype I] [Nonempty I]

/-- A tick that does not overshoot. -/
structure Converges (s : ClockGroup I) (t : GroupTick I) (s' : ClockGroup I) : Prop where
  toward : s'.syncedTimeS t.robot ∈ Set.uIcc (s.syncedTimeS t.robot) (mean (clocks t.entries))
  capped : 0 < (s.systems t.robot).params.maxStepS →
    |s'.syncedTimeS t.robot - s.syncedTimeS t.robot| ≤ (s.systems t.robot).params.maxStepS
  highest_le : highest s'.syncedTimeS ≤ highest s.syncedTimeS
  le_lowest : lowest s.syncedTimeS ≤ lowest s'.syncedTimeS
  spread_le : spread s'.syncedTimeS ≤ spread s.syncedTimeS

omit [Fintype I] [Nonempty I] in
theorem Step.capped (h : Step s t s') (hrates : s.RatesWithin)
    (hcap : 0 < (s.systems t.robot).params.maxStepS) :
    |s'.syncedTimeS t.robot - s.syncedTimeS t.robot| ≤ (s.systems t.robot).params.maxStepS := by
  obtain ⟨-, rfl⟩ := h
  have habs := abs_tick_le (hrates t.robot).1 hcap t.entries (s.syncedTimeS t.robot)
    (s.clockOffsetS t.robot)
  rw [syncedTimeS_tick_self]
  unfold syncedTimeS at habs ⊢
  rwa [add_sub_add_left_eq_sub]

/-- **A tick does not overshoot** if and only if its count is good enough. -/
theorem Step.converges_iff (h : Step s t s') (hrates : s.RatesWithin) :
    Converges s t s' ↔ s.Counts t := by
  constructor
  · intro hconverges
    obtain ⟨hobserves, rfl⟩ := h
    have htoward := hconverges.toward
    rw [syncedTimeS_tick_self] at htoward
    exact (tick_toward_iff (hrates t.robot).1 hobserves.entries_ne_nil _ _).mp htoward
  · intro hcounts
    have hpull := h.pull hrates hcounts
    exact {
      toward := hpull.toward
      capped := h.capped hrates
      highest_le := hpull.highest_le
      le_lowest := hpull.le_lowest
      spread_le := sub_le_sub hpull.highest_le hpull.le_lowest }

/-- **The bounds over a run.** -/
theorem bounds_of_run {ts : List (GroupTick I)} (h : Run (Guarded Step Counts) s ts s')
    (hrates : s.RatesWithin) :
    highest s'.syncedTimeS ≤ highest s.syncedTimeS ∧
      lowest s.syncedTimeS ≤ lowest s'.syncedTimeS := by
  suffices hall : s'.RatesWithin ∧ highest s'.syncedTimeS ≤ highest s.syncedTimeS ∧
      lowest s.syncedTimeS ≤ lowest s'.syncedTimeS from hall.2
  refine Run.invariant (I := fun m => m.RatesWithin ∧
    highest m.syncedTimeS ≤ highest s.syncedTimeS ∧
    lowest s.syncedTimeS ≤ lowest m.syncedTimeS) ?_ h ⟨hrates, le_rfl, le_rfl⟩
  rintro m t m' ⟨hm, hhigh, hlow⟩ ⟨hcounts, hstep⟩
  have hpull := hstep.pull hm hcounts
  exact ⟨hstep.ratesWithin hm, hpull.highest_le.trans hhigh, hlow.trans hpull.le_lowest⟩

/-- **Clocks are not moved past each other.** In every run in which the counts are good enough no
tick overshoots, the latest clock is never later than it was, nor the earliest earlier, and the
spread never grows. A single tick overshoots if and only if its count is not good enough; among at
most 2^32 robots no count is. -/
theorem clock_convexity :
    (∀ (s s' : ClockGroup I) (ts : List (GroupTick I)), s.RatesWithin →
      Run (Guarded Step Counts) s ts s' →
        Run (fun m t m' => Step m t m' ∧ Converges m t m') s ts s' ∧
        highest s'.syncedTimeS ≤ highest s.syncedTimeS ∧
        lowest s.syncedTimeS ≤ lowest s'.syncedTimeS ∧
        spread s'.syncedTimeS ≤ spread s.syncedTimeS) ∧
    (∀ (s s' : ClockGroup I) (t : GroupTick I), s.RatesWithin → Step s t s' →
      (Converges s t s' ↔ s.Counts t)) ∧
    (Fintype.card I ≤ 2 ^ 32 → ∀ (s s' : ClockGroup I) (t : GroupTick I), s.RatesWithin →
      Step s t s' → s.Counts t) := by
  refine ⟨fun s s' ts hrates hrun => ?_, fun s s' t hrates hstep => hstep.converges_iff hrates,
    fun hcard s s' t hrates hstep => hstep.1.counts hrates hcard⟩
  obtain ⟨hhigh, hlow⟩ := bounds_of_run hrun hrates
  refine ⟨?_, hhigh, hlow, sub_le_sub hhigh hlow⟩
  have hstrong := hrun.strengthen (P := fun m t m' => Step m t m' ∧ Converges m t m')
    (fun m t m' hm hstep => hstep.2.ratesWithin hm)
    (fun m t m' hm hstep => ⟨hstep.2, (hstep.2.converges_iff hm).mpr hstep.1⟩) hrates
  exact hstrong.mono fun m t m' hboth => hboth.2

end ClockGroup

/-- Two robots, half a second apart, and a tick of the one behind. -/
theorem pair_converges :
    let pair : ClockGroup Bool :=
      ⟨fun _ => ⟨Params.default, 0, 0⟩, fun _ => 0, fun ahead => if ahead then 1 / 2 else 0⟩
    let t : GroupTick Bool :=
      ⟨false, [Entry.ofBeacon { StateVector.empty with syncTimeS := 1 / 2 } 0 none]⟩
    ClockGroup.Converges pair t (pair.tick t) := by
  intro pair t
  have hrates : pair.RatesWithin := fun _ => by
    constructor <;> norm_num [pair, Params.default]
  have hobserves : pair.Observes t := by
    refine ⟨[true], List.cons_ne_nil _ _, List.nodup_singleton _, by decide, ?_⟩
    simp [clocks, t, pair, ClockGroup.syncedTimeS, Entry.ofBeacon]
  have hcard : Fintype.card Bool ≤ 2 ^ 32 := by decide
  obtain ⟨-, hiff, hcounts⟩ := ClockGroup.clock_convexity (I := Bool)
  exact (hiff pair _ t hrates ⟨hobserves, rfl⟩).mpr (hcounts hcard pair _ t hrates ⟨hobserves, rfl⟩)

/-! ### Too many clocks to count -/

/-- The robot `0` half a second behind `n` others. -/
def behind (n : ℕ) : ClockGroup (Fin (n + 1)) where
  systems _ := ⟨Params.default, 0, 0⟩
  elapsedTimeS _ := 0
  clockOffsetS i := if i = 0 then 0 else 1 / 2

/-- Its tick, when it has heard them all. -/
def hearAll (n : ℕ) : GroupTick (Fin (n + 1)) where
  robot := 0
  entries := (crowdedTable { StateVector.empty with syncTimeS := 1 / 2 } n).entries

theorem clocks_hearAll {n : ℕ} (hn : n ≤ 2 ^ 40) :
    clocks (hearAll n).entries = List.replicate n (1 / 2) :=
  syncTimeS_crowdedTable _ hn

theorem mean_hearAll {n : ℕ} (hn : n ≤ 2 ^ 40) (hpos : 0 < n) :
    mean (clocks (hearAll n).entries) = 1 / 2 := by
  have hn0 : (n : ℚ) ≠ 0 := Nat.cast_ne_zero.mpr hpos.ne'
  rw [clocks_hearAll hn, mean, List.sum_replicate, List.length_replicate, nsmul_eq_mul]
  field_simp

theorem observes_hearAll {n : ℕ} (hn : n ≤ 2 ^ 40) (hpos : 0 < n) :
    (behind n).Observes (hearAll n) := by
  refine ⟨(List.finRange n).map Fin.succ, ?_, ?_, ?_, ?_⟩
  · intro hnil
    have hlength := congrArg List.length hnil
    rw [List.length_map, List.length_finRange, List.length_nil] at hlength
    omega
  · exact (List.nodup_finRange n).map (Fin.succ_injective n)
  · intro hmem
    obtain ⟨i, -, hi⟩ := List.mem_map.mp hmem
    exact Fin.succ_ne_zero i hi
  · rw [clocks_hearAll hn, List.map_map]
    have hhalf : ∀ i : Fin n, (behind n).syncedTimeS i.succ = 1 / 2 := fun i => by
      show (0 : ℚ) + (if i.succ = 0 then 0 else 1 / 2) = 1 / 2
      rw [if_neg (Fin.succ_ne_zero i), zero_add]
    have hconst : (List.finRange n).map ((behind n).syncedTimeS ∘ Fin.succ)
        = (List.finRange n).map fun _ => (1 / 2 : ℚ) := List.map_congr_left fun i _ => hhalf i
    rw [hconst, List.map_const', List.length_finRange]

theorem ratesWithin_behind (n : ℕ) : (behind n).RatesWithin := fun _ => by
  show 0 < (1 / ((10 : ℕ) : ℚ)) ∧ (1 / ((10 : ℕ) : ℚ)) ≤ 1
  norm_num

/-- A count of one makes the step too large. -/
theorem tick_hearAll {n : ℕ} (hn : n ≤ 2 ^ 40) (hlarge : 20 ≤ n) (hcount : UInt32.ofNat n = 1) :
    ((behind n).tick (hearAll n)).syncedTimeS 0 = 1 := by
  have hlength : (hearAll n).entries.length = n := length_crowdedTable _ hn
  have hne : (hearAll n).entries ≠ [] := List.length_pos_iff.mp (by omega)
  have hmean := mean_hearAll hn (by omega)
  have hsync : (behind n).syncedTimeS (hearAll n).robot = 0 := by
    show (0 : ℚ) + (if (0 : Fin (n + 1)) = 0 then 0 else 1 / 2) = 0
    rw [if_pos rfl, zero_add]
  have hrate : 0 < ((behind n).systems (hearAll n).robot).params.adjustmentRate :=
    (ratesWithin_behind n _).1
  have hparams : ((behind n).systems (hearAll n).robot).params = Params.default := rfl
  have hoffset : (behind n).clockOffsetS (hearAll n).robot = 0 := by
    show (if (0 : Fin (n + 1)) = 0 then (0 : ℚ) else 1 / 2) = 0
    rw [if_pos rfl]
  have helapsed : (behind n).elapsedTimeS (hearAll n).robot = 0 := rfl
  -- the count has wrapped to one, so the step is not divided by the peers
  have hfraction : (1 : ℚ) ≤ fraction Params.default (hearAll n).entries * (1 / 2 - 0) := by
    have hn' : (20 : ℚ) ≤ n := by exact_mod_cast hlarge
    rw [fraction, hlength, hcount]
    show (1 : ℚ) ≤ 1 / ((10 : ℕ) : ℚ) * n / ((1 : ℕ) : ℚ) * (1 / 2 - 0)
    push_cast
    linarith
  have hcap : (Params.default : Params ℚ).maxStepS = 1 := rfl
  show ((behind n).tick (hearAll n)).syncedTimeS (hearAll n).robot = 1
  rw [ClockGroup.syncedTimeS_tick_self, offset_tick hrate, step_eq _ hne, hparams, hsync, hmean,
    hoffset, helapsed, hlength, hcount, hcap, if_neg (by decide), if_pos one_pos,
    min_eq_right hfraction]
  norm_num

/-- The latest clock was at one half. -/
theorem highest_rises {n : ℕ} (htick : ((behind n).tick (hearAll n)).syncedTimeS 0 = 1) :
    ¬ highest ((behind n).tick (hearAll n)).syncedTimeS ≤ highest (behind n).syncedTimeS := by
  have hbefore : highest (behind n).syncedTimeS ≤ 1 / 2 := by
    refine Finset.sup'_le _ _ fun i _ => ?_
    show (0 : ℚ) + (if i = 0 then 0 else 1 / 2) ≤ 1 / 2
    split <;> norm_num
  have hafter : 1 ≤ highest ((behind n).tick (hearAll n)).syncedTimeS := by
    rw [← htick]
    exact Finset.le_sup' ((behind n).tick (hearAll n)).syncedTimeS (Finset.mem_univ 0)
  intro hle
  have hhalf : (1 : ℚ) ≤ 1 / 2 := (hafter.trans hle).trans hbefore
  norm_num at hhalf

/-- 2^32 + 1 others are half a second ahead; but they are counted as one, and the step towards them
goes past them, to the cap of one second. The latest clock is later than it was. -/
theorem crowd_overshoots :
    (behind (2 ^ 32 + 1)).RatesWithin ∧
      ClockGroup.Step (behind (2 ^ 32 + 1)) (hearAll (2 ^ 32 + 1))
        ((behind (2 ^ 32 + 1)).tick (hearAll (2 ^ 32 + 1))) ∧
      mean (clocks (hearAll (2 ^ 32 + 1)).entries) = 1 / 2 ∧
      ((behind (2 ^ 32 + 1)).tick (hearAll (2 ^ 32 + 1))).syncedTimeS 0 = 1 ∧
      ¬ highest ((behind (2 ^ 32 + 1)).tick (hearAll (2 ^ 32 + 1))).syncedTimeS
        ≤ highest (behind (2 ^ 32 + 1)).syncedTimeS := by
  have hn : 2 ^ 32 + 1 ≤ 2 ^ 40 := by norm_num
  have hpos : 0 < 2 ^ 32 + 1 := Nat.succ_pos _
  have htick := tick_hearAll hn (by norm_num) (by decide)
  exact ⟨ratesWithin_behind _, ⟨observes_hearAll hn hpos, rfl⟩, mean_hearAll hn hpos, htick,
    highest_rises htick⟩

end MithAtomas
