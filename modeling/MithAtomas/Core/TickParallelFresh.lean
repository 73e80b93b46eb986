import MithAtomas.Core.TickParallelLaws

/-!
# Interleavings in which every load is fresh

The parallel tick along steps that satisfy `FreshLoad`: the seeding loop never finds at zero the
counter of a system that has predecessors. Then a system without predecessors is submitted by the
main thread alone, once, when the loop passes it (`Fresh.root_eq`), and any other system by the
worker whose `fetch_sub` takes its counter to zero, once (`Fresh.dependent_eq`). Everything else
follows from these two and the conservation laws:

* `Fresh.submitted_le` — no system is submitted twice, so none is started, finished or counted
  twice and `completed` stays within `N` (`Fresh.completed_le`);
* `Fresh.quiet_of_full` — when `completed` is `N`, nothing is queued and no worker holds a task;
* `Fresh.finished_of_edge` — a dependent is submitted only when each predecessor has finished;
* `Fresh.ended_of_quiet` — once the queue is empty and no worker holds a task, every system all of
  whose root ancestors were submitted has ended.
-/

namespace MithAtomas

open Runs WorkerState

variable {N W : ℕ}

namespace MainState

/-- 1 if the seeding loop has loaded the counter of `j`. -/
def passedOf (j : Fin N) : MainState N → ℕ
  | seeding k => if (j : ℕ) < k then 1 else 0
  | dispatching k => if j ≤ k then 1 else 0
  | _ => 1

/-- 1 if the main thread is about to submit `j`. -/
def claimOf (j : Fin N) : MainState N → ℕ
  | dispatching k => if k = j then 1 else 0
  | _ => 0

theorem passedOf_le (j : Fin N) (m : MainState N) : m.passedOf j ≤ 1 := by
  cases m <;> simp only [passedOf] <;> first | omega | (split <;> omega)

end MainState

/-- 1 if a counter has been decremented to zero. -/
def exhaustedOf (counter : ℤ) : ℕ :=
  if counter ≤ 0 then 1 else 0

theorem exhaustedOf_le (v : ℤ) : exhaustedOf v ≤ 1 := by
  unfold exhaustedOf
  split <;> omega

theorem exhaustedOf_pos {v : ℤ} (h : 0 < v) : exhaustedOf v = 0 :=
  if_neg (by omega)

theorem exhaustedOf_zero : exhaustedOf 0 = 1 := rfl

/-- The invariant of the interleavings whose loads are fresh. -/
structure Fresh (g : DispatchGraph N) (s : TickState N W) : Prop
    extends Laws g.toHazardGraph s where
  /-- A worker submits only systems that have predecessors. -/
  claim_ne : ∀ w i dep deps, s.workers w = .dispatching i dep deps → g.inDegreeInitial dep ≠ 0
  /-- The main thread submits only systems that have none. -/
  main_root : ∀ i, s.main = .dispatching i → g.inDegreeInitial i = 0
  /-- A system without predecessors is submitted once the loop has passed it. -/
  root_eq : ∀ j, g.inDegreeInitial j = 0 →
    s.submitted.count j + s.main.claimOf j = s.main.passedOf j
  /-- Any other system is submitted once its counter has reached zero. -/
  dependent_eq : ∀ j, g.inDegreeInitial j ≠ 0 →
    s.submitted.count j + tally (claimOf j) s.workers = exhaustedOf (s.inDegree j)

namespace DispatchGraph

variable (g : DispatchGraph N)

/-- `j` is a dependent of `i`. -/
def Edge (i j : Fin N) : Prop := j ∈ g.dependents i

theorem inDegreeInitial_nonneg (j : Fin N) : 0 ≤ g.inDegreeInitial j := by
  rw [g.counted j]
  exact Finset.sum_nonneg fun _ _ => Int.natCast_nonneg _

variable {g}

/-- A system that is somebody's dependent has a positive counter. -/
theorem inDegreeInitial_pos {i j : Fin N} (h : j ∈ g.dependents i) : 0 < g.inDegreeInitial j := by
  rw [g.counted j]
  have h1 : (0 : ℤ) < (g.dependents i).count j := by
    exact_mod_cast List.count_pos_iff.mpr h
  exact h1.trans_le (Finset.single_le_sum (f := fun i => ((g.dependents i).count j : ℤ))
    (fun _ _ => Int.natCast_nonneg _) (Finset.mem_univ i))

theorem exists_edge {j : Fin N} (h : g.inDegreeInitial j ≠ 0) : ∃ i, j ∈ g.dependents i := by
  by_contra hc
  push Not at hc
  refine h ?_
  rw [g.counted j]
  exact Finset.sum_eq_zero fun i _ => by exact_mod_cast List.count_eq_zero.mpr (hc i)

end DispatchGraph

variable {g : DispatchGraph N} {s s' : TickState N W} {l : TickLabel N W}

/-! ### Preservation -/

theorem Fresh.initial (g : DispatchGraph N) : Fresh g (TickState.initial g.toHazardGraph W) where
  toLaws := Laws.initial g.toHazardGraph
  claim_ne := fun w i dep deps h => by simp [TickState.initial] at h
  main_root := fun i h => by
    simp only [TickState.initial] at h
    split at h <;> cases h
  root_eq := fun j _ => by
    have hN : N ≠ 0 := Nat.ne_of_gt (Fin.pos j)
    simp [TickState.initial, hN, MainState.claimOf, MainState.passedOf]
  dependent_eq := fun j hj => by
    have h := g.inDegreeInitial_nonneg j
    simp [TickState.initial, tally, claimOf, exhaustedOf_pos (v := g.inDegreeInitial j) (by omega)]

/-- The list a worker is going through is part of its system's dependents. -/
theorem Laws.mem_dependents_of_pending {g : HazardGraph N} (hI : Laws g s) {w : Fin W}
    {i j : Fin N} (h : 0 < pendingOf i j (s.workers w)) : j ∈ g.dependents i := by
  by_contra hc
  have h1 := hI.released_eq i j
  rw [List.count_eq_zero.mpr hc, Nat.mul_zero] at h1
  have h2 := le_tally (pendingOf i j) s.workers w
  omega

/-- A worker whose new state is `q` was in `q` before, if the step put no worker into `q`. -/
theorem eq_of_update {ws : Fin W → WorkerState N} {w x : Fin W} {p q : WorkerState N}
    (h : Function.update ws x p w = q) (hne : p ≠ q) : ws w = q := by
  by_cases hwx : w = x
  · subst hwx
    rw [Function.update_self] at h
    exact absurd h hne
  · rwa [Function.update_of_ne hwx] at h

theorem Fresh.claim_step (hI : Fresh g s) (hst : Step g.toHazardGraph s l s') (w : Fin W)
    (i dep : Fin N) (deps : List (Fin N)) (hw' : s'.workers w = .dispatching i dep deps) :
    g.inDegreeInitial dep ≠ 0 := by
  have h := hI.claim_ne w i dep deps
  cases hst
  case fetchSub x k d ds hx =>
    by_cases hd : d = dep
    · subst hd
      have hmem : d ∈ g.dependents k := by
        refine hI.mem_dependents_of_pending (w := x) ?_
        simp [hx, pendingOf]
      exact (DispatchGraph.inDegreeInitial_pos hmem).ne'
    · refine h (eq_of_update hw' ?_)
      split
      · exact fun he => hd (WorkerState.dispatching.inj he).2.1
      · rintro ⟨⟩
  case fetchAdd x k hx =>
    refine h (eq_of_update hw' ?_)
    split <;> rintro ⟨⟩
  all_goals first
    | exact h hw'
    | exact h (eq_of_update hw' (by rintro ⟨⟩))

/-- A system without predecessors is nobody's dependent: no worker releases it, and its counter
stays at zero. -/
theorem Laws.inDegree_root (hI : Laws g.toHazardGraph s) {j : Fin N}
    (hj : g.inDegreeInitial j = 0) : s.inDegree j = 0 := by
  rw [hI.inDegree_eq j, hj, zero_sub, neg_eq_zero]
  refine Finset.sum_eq_zero fun i _ => ?_
  have hnot : j ∉ g.dependents i := fun h => (DispatchGraph.inDegreeInitial_pos h).ne' hj
  have h := hI.released_eq i j
  rw [List.count_eq_zero.mpr hnot, Nat.mul_zero] at h
  have : s.released.count (i, j) = 0 := by omega
  exact_mod_cast this

theorem Fresh.main_step (hI : Fresh g s) (hst : Step g.toHazardGraph s l s')
    (hgood : FreshLoad g.toHazardGraph s l) (i : Fin N) (hm' : s'.main = .dispatching i) :
    g.inDegreeInitial i = 0 := by
  have h := hI.main_root i
  cases hst
  case load k hm =>
    simp only at hm'
    split at hm'
    · obtain rfl := MainState.dispatching.inj hm'
      by_contra hne
      exact hgood k rfl hne ‹_›
    · cases hm'
  case test hm =>
    simp only at hm'
    split at hm' <;> cases hm'
  case notify w hw =>
    simp only at hm'
    split at hm'
    · cases hm'
    · exact h hm'
  all_goals first | cases hm' | exact h hm'

theorem Fresh.root_step (hI : Fresh g s) (hst : Step g.toHazardGraph s l s')
    (j : Fin N) (hj : g.inDegreeInitial j = 0) :
    s'.submitted.count j + s'.main.claimOf j = s'.main.passedOf j := by
  have h := hI.root_eq j hj
  cases hst
  case load i hm =>
    rw [hm] at h
    simp only [MainState.claimOf, MainState.passedOf] at h
    -- the scan passes `j` when it loads it, and as a root its counter is zero then
    by_cases hij : i = j
    · subst hij
      simpa [hI.inDegree_root hj, MainState.claimOf, MainState.passedOf] using h
    · have hval : (i : ℕ) ≠ j := fun he => hij (Fin.ext he)
      split
      · simp only [MainState.claimOf, MainState.passedOf, hij, Fin.le_def, if_false]
        split_ifs at h ⊢ <;> omega
      · simp only [MainState.claimOf, MainState.passedOf]
        split_ifs at h ⊢ <;> omega
  case seed i hm =>
    rw [hm] at h
    simp only [TickState.submit, MainState.claimOf, MainState.passedOf, List.count_append,
      List.count_singleton, beq_iff_eq, Fin.le_def] at h ⊢
    split_ifs at h ⊢ <;> omega
  case seeded hm =>
    rw [hm] at h
    simpa [MainState.claimOf, MainState.passedOf] using h
  case lockMain hm _ =>
    rw [hm] at h
    exact h
  case test hm =>
    rw [hm] at h
    split <;> exact h
  case notify w hw =>
    simp only
    split
    · rename_i hm
      rw [hm] at h
      exact h
    · exact h
  case submit w i dep deps hw =>
    -- a worker submits dependents only
    have hdep : dep ≠ j := fun he => hI.claim_ne w i dep deps hw (he ▸ hj)
    simp only [TickState.setWorker, TickState.submit, List.count_append]
    rw [List.count_singleton, if_neg (by simpa using hdep), Nat.add_zero]
    exact h
  -- the other steps neither submit nor scan
  all_goals exact h

/-- No system is submitted twice. -/
theorem Fresh.submitted_le (hI : Fresh g s) (j : Fin N) : s.submitted.count j ≤ 1 := by
  by_cases hj : g.inDegreeInitial j = 0
  · have h := hI.root_eq j hj
    have := s.main.passedOf_le j
    omega
  · have h := hI.dependent_eq j hj
    have := exhaustedOf_le (s.inDegree j)
    omega

theorem Fresh.started_le (hI : Fresh g s) (j : Fin N) : s.started.count j ≤ 1 := by
  have h₁ := hI.submitted_le j
  have h₂ := hI.submitted_eq j
  omega

theorem Fresh.finished_le (hI : Fresh g s) (j : Fin N) : s.finished.count j ≤ 1 := by
  have h₁ := hI.started_le j
  have h₂ := hI.started_eq j
  omega

/-- Per edge, at most as many decrements as the edge was pushed. -/
theorem Fresh.released_le (hI : Fresh g s) (i j : Fin N) :
    s.released.count (i, j) + tally (pendingOf i j) s.workers ≤ (g.dependents i).count j := by
  rw [← hI.released_eq i j]
  calc s.finished.count i * (g.dependents i).count j
      ≤ 1 * (g.dependents i).count j := Nat.mul_le_mul_right _ (hI.finished_le i)
    _ = (g.dependents i).count j := Nat.one_mul _

theorem Fresh.inDegree_nonneg (hI : Fresh g s) (j : Fin N) : 0 ≤ s.inDegree j := by
  rw [hI.inDegree_eq j, g.counted j, sub_nonneg]
  refine Finset.sum_le_sum fun k _ => ?_
  exact_mod_cast (Nat.le_add_right _ _).trans (hI.released_le k j)

/-- The counter of a system that a worker still has to decrement is positive. -/
theorem Fresh.inDegree_pos (hI : Fresh g s) {i j : Fin N} {w : Fin W}
    (h : 0 < pendingOf i j (s.workers w)) : 0 < s.inDegree j := by
  rw [hI.inDegree_eq j, g.counted j, sub_pos]
  have htally := le_tally (pendingOf i j) s.workers w
  refine Finset.sum_lt_sum (fun k _ => ?_) ⟨i, Finset.mem_univ i, ?_⟩
  · have := hI.released_le k j
    exact_mod_cast (Nat.le_add_right _ _).trans this
  · have := hI.released_le i j
    exact_mod_cast (show s.released.count (i, j) < (g.dependents i).count j by omega)

theorem Fresh.dependent_step (hI : Fresh g s) (hst : Step g.toHazardGraph s l s')
    (j : Fin N) (hj : g.inDegreeInitial j ≠ 0) :
    s'.submitted.count j + tally (claimOf j) s'.workers = exhaustedOf (s'.inDegree j) := by
  have h := hI.dependent_eq j hj
  cases hst
  case seed i hm =>
    -- the main thread submits roots only
    have hij : i ≠ j := fun he => hj (he ▸ hI.main_root i hm)
    simp only [TickState.submit, List.count_append]
    rw [List.count_singleton, if_neg (by simpa using hij), Nat.add_zero]
    exact h
  case submit w i dep deps hw =>
    have ht := tally_step (claimOf j) hw (.releasing i deps)
    simp only [TickState.setWorker, TickState.submit, List.count_append, List.count_singleton,
      beq_iff_eq, claimOf] at ht h ⊢
    omega
  case fetchSub w i dep deps hw =>
    have hpos : 0 < s.inDegree dep := by
      refine hI.inDegree_pos (i := i) (w := w) ?_
      simp [hw, pendingOf]
    simp only [TickState.setWorker]
    -- the claim comes with the last decrement of the counter, and with no other
    by_cases hdj : dep = j
    · subst hdj
      rw [Function.update_self]
      by_cases hone : s.inDegree dep = 1
      · have ht := tally_step (claimOf dep) hw (.dispatching i dep deps)
        rw [if_pos hone, hone, sub_self, exhaustedOf_zero]
        rw [exhaustedOf_pos hpos] at h
        simp only [claimOf, if_true] at ht
        omega
      · have ht := tally_step (claimOf dep) hw (.releasing i deps)
        rw [if_neg hone, exhaustedOf_pos (by omega)]
        rw [exhaustedOf_pos hpos] at h
        simp only [claimOf] at ht
        omega
    · have h0 : claimOf j (if s.inDegree dep = 1 then .dispatching i dep deps
          else .releasing i deps) = claimOf j (.releasing i (dep :: deps)) := by
        split <;> simp [claimOf, hdj]
      rw [Function.update_of_ne (Ne.symm hdj), tally_frame hw h0]
      exact h
  all_goals first
    | exact h
    | (simp only [TickState.setWorker]
       rw [tally_frame ‹s.workers _ = _›]
       · exact h
       · first | rfl | (split <;> rfl))

/-- **Steps whose load is fresh keep the invariant.** -/
theorem Fresh.step (hI : Fresh g s) (hst : Step g.toHazardGraph s l s')
    (hgood : FreshLoad g.toHazardGraph s l) : Fresh g s' where
  toLaws := hI.toLaws.step hst
  claim_ne := hI.claim_step hst
  main_root := hI.main_step hst hgood
  root_eq := hI.root_step hst
  dependent_eq := hI.dependent_step hst

/-- The invariant holds at the end of every interleaving whose loads are fresh. -/
theorem Fresh.of_run {ls : List (TickLabel N W)}
    (h : Run (Guarded (Step g.toHazardGraph) (FreshLoad g.toHazardGraph))
      (TickState.initial g.toHazardGraph W) ls s) : Fresh g s :=
  h.invariant (fun _ _ _ hI hst => hI.step hst.2 hst.1) (Fresh.initial g)

/-! ### What the invariant says about a state -/

theorem Fresh.ended_le (hI : Fresh g s) (j : Fin N) : s.ended.count j ≤ 1 := by
  have h₁ := hI.finished_le j
  have h₂ := hI.finished_eq j
  omega

theorem Fresh.ended_nodup (hI : Fresh g s) : s.ended.Nodup :=
  List.nodup_iff_count_le_one.mpr hI.ended_le

/-- The count of a whole tick is never exceeded. -/
theorem Fresh.completed_le (hI : Fresh g s) : s.completed ≤ N := by
  rw [hI.completed_eq]
  simpa using hI.ended_nodup.length_le_card

/-- When the count is full, every system has ended. -/
theorem Fresh.ended_of_full (hI : Fresh g s) (hc : s.completed = N) (j : Fin N) :
    s.ended.count j = 1 := by
  have hmem : j ∈ s.ended.toFinset := by
    have huniv : s.ended.toFinset = Finset.univ := by
      rw [← Finset.card_eq_iff_eq_univ, List.toFinset_card_of_nodup hI.ended_nodup,
        ← hI.completed_eq, hc, Fintype.card_fin]
    rw [huniv]
    exact Finset.mem_univ j
  exact List.count_eq_one_of_mem hI.ended_nodup (List.mem_toFinset.mp hmem)

/-- A system that has ended is in no earlier stage. -/
theorem Fresh.stages_of_ended (hI : Fresh g s) {j : Fin N} (hj : s.ended.count j = 1) :
    s.tasks.count j = 0 ∧ tally (takenOf j) s.workers = 0 ∧ tally (runningOf j) s.workers = 0 ∧
      tally (releasingOf j) s.workers = 0 := by
  have h₁ := hI.submitted_eq j
  have h₂ := hI.started_eq j
  have h₃ := hI.finished_eq j
  have h₄ := hI.submitted_le j
  omega

namespace WorkerState

/-- The system whose task the worker has popped and not finished with. -/
def holds : WorkerState N → Option (Fin N)
  | taken i => some i
  | running i => some i
  | releasing i _ => some i
  | dispatching i _ _ => some i
  | _ => none

/-- The four stages in which a worker holds a task. -/
theorem stage_of_holds {p : WorkerState N} {i : Fin N} (h : p.holds = some i) :
    0 < takenOf i p + runningOf i p + releasingOf i p := by
  cases p <;> simp_all [holds, takenOf, runningOf, releasingOf]

theorem stages_of_free {p : WorkerState N} (h : p.holds = none) (i : Fin N) :
    takenOf i p = 0 ∧ runningOf i p = 0 ∧ releasingOf i p = 0 ∧ claimOf i p = 0 := by
  cases p <;> simp_all [holds, takenOf, runningOf, releasingOf, claimOf]

end WorkerState

/-- No task is queued and no worker holds one. -/
def TickState.Quiet (s : TickState N W) : Prop :=
  s.tasks = [] ∧ ∀ w, (s.workers w).holds = none

/-- **A full count means the pool is quiet.** -/
theorem Fresh.quiet_of_full (hI : Fresh g s) (hc : s.completed = N) : s.Quiet := by
  have hstage := fun j => hI.stages_of_ended (hI.ended_of_full hc j)
  constructor
  · refine List.eq_nil_iff_forall_not_mem.mpr fun j hj => ?_
    exact List.count_eq_zero.mp (hstage j).1 hj
  · intro w
    cases hh : (s.workers w).holds with
    | none => rfl
    | some i =>
      obtain ⟨-, h₁, h₂, h₃⟩ := hstage i
      have ht := le_tally (takenOf i) s.workers w
      have hr := le_tally (runningOf i) s.workers w
      have hl := le_tally (releasingOf i) s.workers w
      have := stage_of_holds hh
      omega

/-- **Predecessors first.** A dependent is submitted only when each predecessor has finished: its
counter is zero, so every edge into it has been decremented, and only a finished task decrements. -/
theorem Fresh.finished_of_edge (hI : Fresh g s) {i j : Fin N} (hij : g.Edge i j)
    (hj : 0 < s.submitted.count j) : s.finished.count i = 1 := by
  have hne : g.inDegreeInitial j ≠ 0 := (DispatchGraph.inDegreeInitial_pos hij).ne'
  -- a dependent is submitted when its counter is used up
  have hzero : s.inDegree j ≤ 0 := by
    by_contra hpos
    have h := hI.dependent_eq j hne
    rw [exhaustedOf_pos (by omega)] at h
    omega
  -- so every edge into it has been released, this one too
  have hrel : 0 < s.released.count (i, j) := by
    by_contra hnot
    have hlt : ∑ k, (s.released.count (k, j) : ℤ) < ∑ k, ((g.dependents k).count j : ℤ) := by
      refine Finset.sum_lt_sum (fun k _ => ?_) ⟨i, Finset.mem_univ i, ?_⟩
      · exact_mod_cast (Nat.le_add_right _ _).trans (hI.released_le k j)
      · have : 0 < (g.dependents i).count j := List.count_pos_iff.mpr hij
        exact_mod_cast (show s.released.count (i, j) < (g.dependents i).count j by omega)
    have h := hI.inDegree_eq j
    rw [g.counted j] at h
    omega
  have hle := hI.finished_le i
  have hpos : s.finished.count i ≠ 0 := by
    intro h0
    have h := hI.released_eq i j
    rw [h0, Nat.zero_mul] at h
    omega
  omega

/-- The workers of a quiet pool hold nothing. -/
theorem tally_of_quiet (hfree : ∀ w, (s.workers w).holds = none) (i : Fin N) :
    tally (takenOf i) s.workers = 0 ∧ tally (runningOf i) s.workers = 0 ∧
      tally (releasingOf i) s.workers = 0 ∧ tally (claimOf i) s.workers = 0 :=
  ⟨tally_eq_zero fun w => (stages_of_free (hfree w) i).1,
    tally_eq_zero fun w => (stages_of_free (hfree w) i).2.1,
    tally_eq_zero fun w => (stages_of_free (hfree w) i).2.2.1,
    tally_eq_zero fun w => (stages_of_free (hfree w) i).2.2.2⟩

/-- The counter of a system is zero in a quiet pool when its predecessors have ended. -/
theorem Fresh.inDegree_eq_zero (hI : Fresh g s)
    (hfree : ∀ w, (s.workers w).holds = none) {j : Fin N}
    (hpred : ∀ i, g.Edge i j → s.ended.count i = 1) : s.inDegree j = 0 := by
  rw [hI.inDegree_eq j, g.counted j, sub_eq_zero]
  refine Finset.sum_congr rfl fun i _ => ?_
  have hrel := hI.released_eq i j
  have hpend : tally (pendingOf i j) s.workers = 0 := tally_eq_zero fun w => by
    have := hfree w
    cases hp : s.workers w <;> simp_all [holds, pendingOf]
  by_cases hij : g.Edge i j
  · have hfin : s.finished.count i = 1 := by
      have := hI.finished_eq i
      have := (tally_of_quiet hfree i).2.2.1
      have := hpred i hij
      omega
    rw [hfin, hpend, Nat.one_mul, Nat.add_zero] at hrel
    exact_mod_cast hrel
  · rw [List.count_eq_zero.mpr hij, Nat.mul_zero] at hrel
    rw [List.count_eq_zero.mpr hij]
    exact_mod_cast (show 0 = s.released.count (i, j) by omega)

/-- **A quiet pool has done all it was given.** If every root ancestor of `j` was submitted, `j`
has ended. The induction is on the rank: the predecessors of `j` have ended, so its counter is
zero, so it was submitted. -/
theorem Fresh.ended_of_quiet (hI : Fresh g s) (hq : s.Quiet) (j : Fin N)
    (hroots : ∀ r, g.inDegreeInitial r = 0 → Relation.ReflTransGen g.Edge r j →
      s.submitted.count r = 1) : s.ended.count j = 1 := by
  induction hn : g.rank j using Nat.strongRecOn generalizing j with
  | ind n ih =>
    obtain ⟨hempty, hfree⟩ := hq
    obtain ⟨htaken, hrunning, hreleasing, hclaim⟩ := tally_of_quiet hfree j
    have hsub : s.submitted.count j = 1 := by
      by_cases hj : g.inDegreeInitial j = 0
      · exact hroots j hj Relation.ReflTransGen.refl
      · have hpred : ∀ i, g.Edge i j → s.ended.count i = 1 := fun i hij =>
          ih (g.rank i) (hn ▸ g.rank_lt hij) i
            (fun r hr hri => hroots r hr (hri.tail hij)) rfl
        have h := hI.dependent_eq j hj
        rw [hI.inDegree_eq_zero hfree hpred, exhaustedOf_zero, hclaim] at h
        exact h
    -- what was submitted has gone through all stages, as nothing is left in any
    have hsubmitted := hI.submitted_eq j
    have hstarted := hI.started_eq j
    have hfinished := hI.finished_eq j
    rw [hempty, List.count_nil] at hsubmitted
    omega

end MithAtomas
