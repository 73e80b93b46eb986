import MithAtomas.Core.TickParallelOnce

/-!
# Conflicting systems are serialised

The purpose of the hazard graph: of two systems that conflict, the one with the smaller name has
finished before the other starts, and no two workers are inside conflicting ticks at once
(`Serialised`). `Fresh.serialised` proves it of the states of interleavings whose loads are fresh;
a stale load breaks it, since it dispatches a system whose first execution may still be under way.

`Fresh.started_pairwise` reads the same off the order of the starts: it respects every edge. With
`Fresh.perm_started` the starts of a whole tick are a linear extension of the graph, which is how
other modules use a parallel tick.
-/

namespace MithAtomas

open Runs WorkerState

variable {N W : ℕ}

/-- What the hazard graph promises of a state of the tick. -/
structure Serialised (desc : Fin N → SystemDescriptor) (s : TickState N W) : Prop where
  /-- A system starts after every conflicting system of smaller name has finished. -/
  finished_of_start : ∀ w j s', Step (buildHazardGraph desc) s (.start w j) s' →
    ∀ i, ConflictsBefore desc i j → i ∈ s.finished
  /-- Executions in progress at the same time do not conflict. -/
  no_overlap : ∀ w w' i i', w ≠ w' → s.workers w = .running i → s.workers w' = .running i' →
    haveHazard (desc i) (desc i') = false

section Fresh

variable {g : DispatchGraph N} {s s' : TickState N W} {l : TickLabel N W}

theorem Fresh.finished_of_taken (hI : Fresh g s) {w : Fin W} {i j : Fin N}
    (hw : s.workers w = .taken j) (hij : g.Edge i j) : s.finished.count i = 1 := by
  refine hI.finished_of_edge hij ?_
  have h₁ := hI.submitted_eq j
  have h₂ := le_tally (takenOf j) s.workers w
  simp only [hw, takenOf, if_true] at h₂
  omega

theorem Fresh.finished_of_running (hI : Fresh g s) {w : Fin W} {i j : Fin N}
    (hw : s.workers w = .running j) (hij : g.Edge i j) : s.finished.count i = 1 := by
  refine hI.finished_of_edge hij ?_
  have h₁ := hI.submitted_eq j
  have h₂ := hI.started_eq j
  have h₃ := le_tally (runningOf j) s.workers w
  simp only [hw, runningOf, if_true] at h₃
  omega

/-- A running system has not finished. -/
theorem Fresh.finished_eq_zero_of_running (hI : Fresh g s) {w : Fin W} {i : Fin N}
    (hw : s.workers w = .running i) : s.finished.count i = 0 := by
  have h₁ := hI.started_eq i
  have h₂ := hI.started_le i
  have h₃ := le_tally (runningOf i) s.workers w
  simp only [hw, runningOf, if_true] at h₃
  omega

/-- No system runs on two workers. -/
theorem Fresh.running_inj (hI : Fresh g s) {w w' : Fin W} {i : Fin N}
    (hw : s.workers w = .running i) (hw' : s.workers w' = .running i) : w = w' := by
  by_contra hne
  have h₁ := add_le_tally (runningOf i) s.workers hne
  have h₂ := hI.started_eq i
  have h₃ := hI.started_le i
  simp only [hw, hw', runningOf, if_true] at h₁
  omega

/-- The starts, in order, respect every edge. -/
theorem Fresh.started_pairwise {ls : List (TickLabel N W)}
    (h : Run (Guarded (Step g.toHazardGraph) (FreshLoad g.toHazardGraph))
      (TickState.initial g.toHazardGraph W) ls s) :
    s.started.Pairwise fun a b => ¬ g.Edge b a := by
  refine (h.invariant (I := fun s => Fresh g s ∧ s.started.Pairwise fun a b => ¬ g.Edge b a)
    ?_ ⟨Fresh.initial g, List.Pairwise.nil⟩).2
  rintro m l m' ⟨hI, hpair⟩ ⟨hgood, hst⟩
  have hI' := hI.step hst hgood
  refine ⟨hI', ?_⟩
  cases hst
  case start w j hw =>
    simp only [List.pairwise_append, List.pairwise_singleton,
      List.mem_singleton, true_and]
    refine ⟨hpair, ?_⟩
    rintro a ha b rfl hba
    -- `b` would have to be finished for `a` to have started, but it starts only now
    have hfin : m.finished.count b = 1 := by
      refine hI.finished_of_edge hba ?_
      have h₁ := hI.submitted_eq a
      have h₂ := List.count_pos_iff.mpr ha
      omega
    have hle := hI'.started_le b
    have hsta := hI.started_eq b
    simp only [List.count_append, List.count_singleton_self] at hle
    omega
  all_goals exact hpair

/-- When the tick has returned, its starts are the systems, once each. -/
theorem Fresh.perm_started (hI : Fresh g s) (hr : s.main = .returned) :
    s.started.Perm (List.finRange N) := by
  refine List.perm_iff_count.mpr fun j => ?_
  rw [(hI.all_of_returned hr j).1,
    List.count_eq_one_of_mem (List.nodup_finRange N) (List.mem_finRange j)]

end Fresh

/-- **Conflicts are serialised** as long as no load is stale. -/
theorem Fresh.serialised {desc : Fin N → SystemDescriptor}
    {hnames : Function.Injective fun i => (desc i).name} {s : TickState N W}
    (hI : Fresh (dispatchGraph desc hnames) s) : Serialised desc s := by
  constructor
  · intro w j s' hst i hij
    cases hst with
    | start hw =>
      have h := hI.finished_of_taken hw (edge_iff.mpr hij)
      exact List.count_pos_iff.mp (by omega)
  · intro w w' i i' hne hw hw'
    by_contra hhaz
    rw [Bool.not_eq_false] at hhaz
    rcases lt_trichotomy (desc i).name (desc i').name with hlt | heq | hgt
    · have h₁ := hI.finished_of_running hw' (edge_iff.mpr ⟨hlt, hhaz⟩)
      have h₂ := hI.finished_eq_zero_of_running hw
      omega
    · obtain rfl := hnames heq
      exact hne (hI.running_inj hw hw')
    · have h₁ := hI.finished_of_running hw (edge_iff.mpr ⟨hgt, haveHazard_symm hhaz⟩)
      have h₂ := hI.finished_eq_zero_of_running hw'
      omega

/-- In a run without a stale load, every state is one of serialised conflicts. -/
theorem conflicting_systems_serialised (desc : Fin N → SystemDescriptor)
    (hnames : Function.Injective fun i => (desc i).name) {ls : List (TickLabel N W)}
    {s : TickState N W}
    (hrun : Run (Guarded (Step (buildHazardGraph desc)) (FreshLoad (buildHazardGraph desc)))
      (TickState.initial (buildHazardGraph desc) W) ls s) : Serialised desc s := by
  have hI : Fresh (dispatchGraph desc hnames) s := Fresh.of_run hrun
  exact hI.serialised

/-- The two-system scheduler on one worker, up to the point where the reader is about to start. -/
def writerFirstLabels : List (TickLabel 2 1) :=
  [.load 0, .seed 0, .load 1, .take 0 0, .start 0 0, .finish 0 0, .fetchSub 0 0 1, .submit 0 1,
    .fetchAdd 0 0, .take 0 1]

theorem writerFirst_serialised : ∃ s : TickState 2 1,
    Run (Guarded (Step (buildHazardGraph writerFirst)) (FreshLoad (buildHazardGraph writerFirst)))
      (TickState.initial (buildHazardGraph writerFirst) 1) writerFirstLabels s ∧
      s.workers 0 = .taken 1 ∧ Serialised writerFirst s := by
  have hnames : Function.Injective fun i => (writerFirst i).name := by decide
  obtain ⟨s, hs, hw⟩ : ∃ s, writerFirstLabels.foldlM
      (TickState.execFresh (buildHazardGraph writerFirst))
      (TickState.initial (buildHazardGraph writerFirst) 1) = some s ∧
      s.workers 0 = .taken 1 := ⟨_, rfl, by decide⟩
  have hrun := Run.of_foldlM Guarded.of_execFresh hs
  exact ⟨s, hrun, hw, conflicting_systems_serialised writerFirst hnames hrun⟩

/-- A producer, and a system that reads what it writes and writes on. -/
def pipeline : Fin 2 → SystemDescriptor :=
  ![⟨"Producer", [], [1], [], []⟩, ⟨"Relay", [1], [2], [], []⟩]

/-- The relay is dispatched by the worker that ran the producer, starts, and is dispatched again by
the seeding loop, which finds its counter at zero. -/
def pipelineLabels : List (TickLabel 2 2) :=
  [.load 0, .seed 0, .take 0 0, .start 0 0, .finish 0 0, .fetchSub 0 0 1, .submit 0 1,
    .fetchAdd 0 0, .take 1 1, .start 1 1, .load 1, .seed 1, .take 0 1, .start 0 1]

theorem pipeline_overlaps_itself :
    ¬ ∀ (N W : ℕ) (desc : Fin N → SystemDescriptor),
      (Function.Injective fun i => (desc i).name) →
      ∀ (ls : List (TickLabel N W)) (s : TickState N W),
        Run (Step (buildHazardGraph desc)) (TickState.initial (buildHazardGraph desc) W) ls s →
          Serialised desc s := by
  intro hclaim
  obtain ⟨s, hs, hw, hw'⟩ : ∃ s, pipelineLabels.foldlM
      (TickState.exec (buildHazardGraph pipeline))
      (TickState.initial (buildHazardGraph pipeline) 2) = some s ∧
      s.workers 0 = .running 1 ∧ s.workers 1 = .running 1 := ⟨_, rfl, by decide, by decide⟩
  have h := hclaim 2 2 pipeline (by decide) _ s (Run.of_foldlM Step.of_exec hs)
  have hfalse := h.no_overlap 0 1 1 1 (by decide) hw hw'
  exact absurd hfalse (by decide)

end MithAtomas
