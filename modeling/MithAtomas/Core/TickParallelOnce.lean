import MithAtomas.Core.TickParallelProgress

/-!
# Exactly once per tick

`tick_parallel_` means to run every registered system once. `ExactlyOnce g W` says it over every
interleaving of one tick on `W` workers: nothing starts twice, `completed` stays within `N`, a full
count finds the pool quiet, the call ends, and when it has returned everything has run.

It does not always hold. The seeding loop reads the counters that workers are already decrementing:
a system whose predecessors have all finished before the loop reaches it has a counter of zero and
is dispatched again. `LateRoots` says when this cannot be: every system that has predecessors has an
ancestor without any that is registered after it, and so not yet seeded when the loop reads the
system's counter. `exactlyOnce_iff_lateRoots` is the equivalence.
-/

namespace MithAtomas

open Runs WorkerState

variable {N : ℕ}

/-- The number of workers of a scheduler built with `thread_pool_size`. -/
def poolSize (requested hc : ℕ) : ℕ :=
  ThreadPool.numWorkers (resolvePoolSize requested hc)

theorem poolSize_pos (requested hc : ℕ) : 0 < poolSize requested hc := by
  unfold poolSize ThreadPool.numWorkers
  split <;> omega

/-- What the tick promises of every state it passes through. -/
structure OnceAt {W : ℕ} (s : TickState N W) : Prop where
  started_le : ∀ i, s.started.count i ≤ 1
  completed_le : s.completed ≤ N
  quiet_of_full : s.completed = N → s.Quiet
  all_of_returned : s.main = .returned → ∀ i, s.started.count i = 1 ∧ s.finished.count i = 1

/-- What the tick promises of all its interleavings. -/
structure ExactlyOnce (g : HazardGraph N) (W : ℕ) : Prop where
  onceAt : ∀ (ls : List (TickLabel N W)) (s : TickState N W),
    Run (Step g) (TickState.initial g W) ls s → OnceAt s
  /-- The main thread is never left waiting. -/
  returned_of_stuck : ∀ (ls : List (TickLabel N W)) (s : TickState N W),
    Run (Step g) (TickState.initial g W) ls s → Stuck (Step g) s → s.main = .returned
  bounded : ∃ B, ∀ (ls : List (TickLabel N W)) (s : TickState N W),
    Run (Step g) (TickState.initial g W) ls s → ls.length ≤ B

/-- Every dependent has a root ancestor of a larger index. -/
def DispatchGraph.LateRoots (g : DispatchGraph N) : Prop :=
  ∀ j, g.inDegreeInitial j ≠ 0 →
    ∃ r, j < r ∧ g.inDegreeInitial r = 0 ∧ Relation.ReflTransGen g.Edge r j

section Runs

variable {W : ℕ} {g : DispatchGraph N} {s s' : TickState N W} {l : TickLabel N W}

/-! ### With late roots every load is fresh -/

/-- Nothing downstream of a system that was not submitted is submitted. -/
theorem Fresh.unsubmitted_of_reach (hI : Fresh g s) {r j : Fin N}
    (hr : s.submitted.count r = 0) (hrj : Relation.ReflTransGen g.Edge r j) :
    s.submitted.count j = 0 := by
  induction hrj with
  | refl => exact hr
  | @tail a b _ hab ih =>
    by_contra hne
    have hfin := hI.finished_of_edge hab (Nat.pos_of_ne_zero hne)
    have h₁ := hI.submitted_eq a
    have h₂ := hI.started_eq a
    omega

/-- A worker releases to zero only what it then submits, so an unsubmitted dependent that no worker
is about to submit has a positive counter. -/
theorem Fresh.inDegree_pos_of_reach (hI : Fresh g s) {r j : Fin N}
    (hr : s.submitted.count r = 0) (hrj : Relation.ReflTransGen g.Edge r j)
    (hj : g.inDegreeInitial j ≠ 0) (hroot : g.inDegreeInitial r = 0) : 0 < s.inDegree j := by
  obtain rfl | ⟨i, hri, hij⟩ := Relation.ReflTransGen.cases_tail hrj
  · exact absurd hroot hj
  · have hsub := hI.unsubmitted_of_reach hr hri
    have hfin : s.finished.count i = 0 := by
      have h₁ := hI.submitted_eq i
      have h₂ := hI.started_eq i
      omega
    rw [hI.inDegree_eq j, g.counted j, sub_pos]
    refine Finset.sum_lt_sum (fun k _ => ?_) ⟨i, Finset.mem_univ i, ?_⟩
    · exact_mod_cast (Nat.le_add_right _ _).trans (hI.released_le k j)
    · have h := hI.released_eq i j
      rw [hfin, Nat.zero_mul] at h
      have : 0 < (g.dependents i).count j := List.count_pos_iff.mpr hij
      exact_mod_cast (show s.released.count (i, j) < (g.dependents i).count j by omega)

theorem Fresh.freshLoad (hI : Fresh g s) (hlate : g.LateRoots)
    (hst : Step g.toHazardGraph s l s') : FreshLoad g.toHazardGraph s l := by
  rintro j rfl hj
  obtain ⟨r, hjr, hroot, hrj⟩ := hlate j hj
  cases hst
  case load hm =>
    have hr : s.submitted.count r = 0 := by
      have h := hI.root_eq r hroot
      rw [hm] at h
      simp only [MainState.claimOf, MainState.passedOf] at h
      rw [if_neg (by omega)] at h
      omega
    exact (hI.inDegree_pos_of_reach hr hrj hj hroot).ne'

/-- The promises a fresh state keeps. -/
theorem Fresh.onceAt (hI : Fresh g s) : OnceAt s where
  started_le := hI.started_le
  completed_le := hI.completed_le
  quiet_of_full := hI.quiet_of_full
  all_of_returned := hI.all_of_returned

theorem exactlyOnce_of_lateRoots (hlate : g.LateRoots) (hW : 0 < W) :
    ExactlyOnce g.toHazardGraph W := by
  have hfresh : ∀ (ls : List (TickLabel N W)) (s : TickState N W),
      Run (Step g.toHazardGraph) (TickState.initial g.toHazardGraph W) ls s → Fresh g s :=
    fun ls s hrun => (hrun.restrict (G := FreshLoad g.toHazardGraph)
      (fun _ _ _ hI hst => hI.step hst.2 hst.1) (fun _ _ _ hI hst => hI.freshLoad hlate hst)
      (Fresh.initial g)).2
  refine ⟨fun ls s hrun => (hfresh ls s hrun).onceAt,
    fun ls s hrun => (hfresh ls s hrun).returned_of_stuck hW,
    workLeft (TickState.initial g.toHazardGraph W), fun ls s hrun => ?_⟩
  have hstep : ∀ (m : TickState N W) l m', Fresh g m → Step g.toHazardGraph m l m' →
      Fresh g m' := fun m l m' hI hst => hI.step hst (hI.freshLoad hlate hst)
  have h := hrun.length_le (μ := workLeft) hstep
    (fun m l m' hI hst => (hstep m l m' hI hst).workLeft_lt hst) (Fresh.initial g)
  omega

/-! ### Without, some interleaving dispatches a system twice -/

/-- The seeding loop up to `k`, before any worker moves: the counters are still the initial ones. -/
theorem exists_seeding_run (g : DispatchGraph N) (W : ℕ) {k : ℕ} (hN : 0 < N) (hk : k ≤ N) :
    ∃ (ls : List (TickLabel N W)) (s : TickState N W),
      Run (Guarded (Step g.toHazardGraph) (FreshLoad g.toHazardGraph))
        (TickState.initial g.toHazardGraph W) ls s ∧
      s.main = .seeding k ∧ s.inDegree = g.inDegreeInitial := by
  induction k with
  | zero => exact ⟨[], _, Run.nil, by simp [TickState.initial, hN.ne'], rfl⟩
  | succ k ih =>
    obtain ⟨ls, s, hrun, hm, hdeg⟩ := ih (by omega)
    have hgood : FreshLoad g.toHazardGraph s (.load ⟨k, hk⟩) := by
      intro i hi hne
      rwa [hdeg]
    have hload := Run.snoc hrun ⟨hgood, Step.load (i := ⟨k, hk⟩) hm⟩
    by_cases hz : s.inDegree ⟨k, hk⟩ = 0
    · rw [if_pos hz] at hload
      have hseed : FreshLoad g.toHazardGraph { s with main := .dispatching ⟨k, hk⟩ }
          (.seed ⟨k, hk⟩ : TickLabel N W) := by
        rintro i ⟨⟩
      exact ⟨_, _, Run.snoc hload ⟨hseed, Step.seed rfl⟩, rfl, hdeg⟩
    · rw [if_neg hz] at hload
      exact ⟨_, _, hload, rfl, hdeg⟩

/-- A worker's step leaves a seeding main thread where it is, and keeps the invariant. -/
theorem Fresh.workerStep {k : ℕ} (hI : Fresh g s ∧ s.main = .seeding k)
    (hst : WorkerStep g.toHazardGraph s l s') : Fresh g s' ∧ s'.main = .seeding k := by
  obtain ⟨hI, hm⟩ := hI
  obtain ⟨hby, hst⟩ := hst
  have hgood : FreshLoad g.toHazardGraph s l := by
    rintro i rfl
    exact hby.elim
  refine ⟨hI.step hst hgood, ?_⟩
  cases hst
  case notify w hw =>
    rw [← hm]
    exact if_neg (by rw [hm]; rintro ⟨⟩)
  all_goals first | exact hby.elim | exact hm

/-- With an empty queue, what the main thread dispatches is what an idle worker starts next. -/
theorem exists_start_run {g : HazardGraph N} {w : Fin W} {j : Fin N} (hm : s.main = .dispatching j)
    (hidle : s.workers w = .idle) (hempty : s.tasks = []) :
    ∃ (ls : List (TickLabel N W)) (s' : TickState N W),
      Run (Step g) s ls s' ∧ s'.started = s.started ++ [j] := by
  have hseed := Run.single (Step.seed (g := g) hm)
  have htask : (s.submit j).tasks = j :: [] := by simp [TickState.submit, hempty]
  have htake := hseed.snoc (Step.take (w := w) (i := j) hidle htask)
  have hstart := htake.snoc (Step.start (w := w) (i := j) (Function.update_self _ _ _))
  exact ⟨_, _, hstart, rfl⟩

/-- **The double dispatch.** The loop stops at `j`; the workers drain the queue, so `j`, all of
whose roots were seeded, has run and its counter is zero; the loop resumes and dispatches it. -/
theorem exists_started_twice (hW : 0 < W) {j : Fin N} (hj : g.inDegreeInitial j ≠ 0)
    (hroots : ∀ r, g.inDegreeInitial r = 0 → Relation.ReflTransGen g.Edge r j → r ≤ j) :
    ∃ (ls : List (TickLabel N W)) (s : TickState N W),
      Run (Step g.toHazardGraph) (TickState.initial g.toHazardGraph W) ls s ∧
      s.started.count j = 2 := by
  -- no worker moves until the loop is at `j`
  obtain ⟨ls₁, s₁, hrun₁, hm₁, -⟩ := exists_seeding_run g W (Fin.pos j) j.isLt.le
  -- while the workers run, the main thread stays at `j` and nothing it does can be stale
  have hkeep : ∀ (m : TickState N W) l m', (Fresh g m ∧ m.main = .seeding j) →
      WorkerStep g.toHazardGraph m l m' → Fresh g m' ∧ m'.main = .seeding j :=
    fun m l m' hI hst => Fresh.workerStep hI hst
  have hdrop : ∀ (m : TickState N W) l m', (Fresh g m ∧ m.main = .seeding j) →
      WorkerStep g.toHazardGraph m l m' → workLeft m' < workLeft m :=
    fun m l m' hI hst => (hkeep m l m' hI hst).1.workLeft_lt hst.2
  have h₁ : Fresh g s₁ ∧ s₁.main = .seeding j := ⟨Fresh.of_run hrun₁, hm₁⟩
  obtain ⟨ls₂, s₂, hrun₂, hstuck⟩ := exists_run_to_stuck hkeep hdrop s₁ h₁
  obtain ⟨hI, hm⟩ := hrun₂.invariant hkeep h₁
  have hmain : s₂.main ≠ .testing := by rw [hm]; rintro ⟨⟩
  have hquiet := quiet_of_stuck hW hmain hstuck
  -- the workers have drained the queue, so `j` has run
  have hended : s₂.ended.count j = 1 := by
    refine hI.ended_of_quiet hquiet j fun r hr hrj => ?_
    have hlt : (r : ℕ) < j := lt_of_le_of_ne (hroots r hr hrj) fun he =>
      hj (Fin.ext he ▸ hr)
    have h := hI.root_eq r hr
    rw [hm] at h
    simpa [MainState.claimOf, MainState.passedOf, hlt] using h
  have hsub : s₂.submitted.count j = 1 := by
    have h₁ := hI.submitted_eq j
    have h₂ := hI.started_eq j
    have h₃ := hI.finished_eq j
    have h₄ := hI.submitted_le j
    omega
  have hstarted : s₂.started.count j = 1 := by
    have h₁ := hI.started_eq j
    have h₂ := hI.finished_eq j
    have h₃ := hI.started_le j
    omega
  have hzero : s₂.inDegree j = 0 := by
    have h := hI.dependent_eq j hj
    have hle : s₂.inDegree j ≤ 0 := by
      by_contra hpos
      rw [exhaustedOf_pos (by omega)] at h
      omega
    exact le_antisymm hle (hI.inDegree_nonneg j)
  -- the loop resumes and finds the counter at zero
  have hload : Step g.toHazardGraph s₂ (.load j) { s₂ with main := .dispatching j } := by
    have h := Step.load (g := g.toHazardGraph) (s := s₂) hm
    rwa [if_pos hzero] at h
  obtain ⟨ls₃, s₃, hrun₃, hs₃⟩ := exists_start_run (g := g.toHazardGraph) (j := j)
    (s := { s₂ with main := .dispatching j }) rfl (idle_of_stuck hmain hstuck ⟨0, hW⟩) hquiet.1
  have hto₁ := hrun₁.mono fun _ _ _ h => h.2
  have hto₂ := hrun₂.mono fun _ _ _ h => h.2
  refine ⟨_, s₃, ((hto₁.trans hto₂).snoc hload).trans hrun₃, ?_⟩
  simp [hs₃, hstarted]

theorem exactlyOnce_iff_lateRoots (hW : 0 < W) :
    ExactlyOnce g.toHazardGraph W ↔ g.LateRoots := by
  refine ⟨fun h j hj => ?_, fun hlate => exactlyOnce_of_lateRoots hlate hW⟩
  by_contra hnone
  push Not at hnone
  obtain ⟨ls, s, hrun, htwice⟩ := exists_started_twice hW hj fun r hr hrj => by
    by_contra hlt
    exact hnone r (not_le.mp hlt) hr hrj
  have h := (h.onceAt ls s hrun).started_le j
  omega

end Runs

/-! ### In terms of the descriptors -/

/-- `i` runs before `j`: the two conflict and `i` has the smaller name. -/
def ConflictsBefore (desc : Fin N → SystemDescriptor) (i j : Fin N) : Prop :=
  (desc i).name < (desc j).name ∧ haveHazard (desc i) (desc j) = true

instance (desc : Fin N → SystemDescriptor) (i j : Fin N) : Decidable (ConflictsBefore desc i j) :=
  inferInstanceAs (Decidable (_ ∧ _))

section Descriptors

variable {desc : Fin N → SystemDescriptor}
  {hnames : Function.Injective fun i => (desc i).name}

theorem edge_iff {i j : Fin N} :
    (dispatchGraph desc hnames).Edge i j ↔ ConflictsBefore desc i j :=
  mem_dependents hnames

theorem inDegreeInitial_eq_zero_iff {j : Fin N} :
    (dispatchGraph desc hnames).inDegreeInitial j = 0 ↔ ∀ i, ¬ ConflictsBefore desc i j := by
  refine ⟨fun h i hij => ?_, fun h => ?_⟩
  · exact (DispatchGraph.inDegreeInitial_pos (edge_iff.mpr hij)).ne' h
  · by_contra hne
    obtain ⟨i, hij⟩ := DispatchGraph.exists_edge hne
    exact h i (edge_iff.mp hij)

end Descriptors

/-- Every system with a predecessor has an ancestor without one that is registered after it. -/
def RootsRegisteredLater (desc : Fin N → SystemDescriptor) : Prop :=
  ∀ j, (∃ i, ConflictsBefore desc i j) →
    ∃ r, j < r ∧ (∀ i, ¬ ConflictsBefore desc i r) ∧
      Relation.ReflTransGen (ConflictsBefore desc) r j

/-- **When a parallel tick runs everything once.** -/
theorem tick_parallel_exactly_once_iff (desc : Fin N → SystemDescriptor)
    (hnames : Function.Injective fun i => (desc i).name) (requested hc : ℕ) :
    ExactlyOnce (buildHazardGraph desc) (poolSize requested hc) ↔ RootsRegisteredLater desc := by
  have hedge : (dispatchGraph desc hnames).Edge = ConflictsBefore desc := by
    funext i j
    exact propext edge_iff
  have h := exactlyOnce_iff_lateRoots (g := dispatchGraph desc hnames) (poolSize_pos requested hc)
  refine h.trans (forall_congr' fun j => ?_)
  rw [hedge]
  simp only [ne_eq, inDegreeInitial_eq_zero_iff, not_forall, not_not]

/-- A reader registered before the writer it waits for. -/
def readerFirst : Fin 2 → SystemDescriptor :=
  ![⟨"Reader", [1], [], [], []⟩, ⟨"Producer", [], [1], [], []⟩]

theorem readerFirst_exactly_once :
    (Function.Injective fun i => (readerFirst i).name) ∧
      ExactlyOnce (buildHazardGraph readerFirst) (poolSize 4 8) := by
  have hnames : Function.Injective fun i => (readerFirst i).name := by decide
  refine ⟨hnames, (tick_parallel_exactly_once_iff readerFirst hnames 4 8).mpr ?_⟩
  have hlate : ∀ j, (∃ i, ConflictsBefore readerFirst i j) → j = 0 := by decide
  intro j hj
  obtain rfl := hlate j hj
  exact ⟨1, by decide, by decide, Relation.ReflTransGen.single (by decide)⟩

/-- The writer registered first: the loop can reach the reader after the reader has run. -/
def writerFirst : Fin 2 → SystemDescriptor :=
  ![⟨"Producer", [], [1], [], []⟩, ⟨"Reader", [1], [], [], []⟩]

theorem writerFirst_started_twice :
    ¬ ∀ (N : ℕ) (desc : Fin N → SystemDescriptor),
      (Function.Injective fun i => (desc i).name) → ∀ requested hc : ℕ,
        ExactlyOnce (buildHazardGraph desc) (poolSize requested hc) := by
  intro hclaim
  have hnames : Function.Injective fun i => (writerFirst i).name := by decide
  have hj : (dispatchGraph writerFirst hnames).inDegreeInitial 1 ≠ 0 := by
    rw [ne_eq, inDegreeInitial_eq_zero_iff]
    decide
  obtain ⟨ls, s, hrun, htwice⟩ := exists_started_twice (poolSize_pos 1 8) hj
    fun r _ _ => Fin.le_last r
  have h := ((hclaim 2 writerFirst hnames 1 8).onceAt ls s hrun).started_le 1
  omega

end MithAtomas
