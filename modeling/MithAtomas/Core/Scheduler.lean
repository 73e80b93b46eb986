import MithAtomas.Framework.LinearExtension
import MithAtomas.Core.TickParallelOrder

/-!
# One tick of the scheduler, in either mode

`SystemScheduler::tick` as seen by the state the systems share. In `Sequential` mode the ticks run
one after the other in the order `order_`, that is by name (`tickSequential`). In `Parallel` mode
they run as some interleaving of `tick_parallel_` lets them; `ParallelOrder` collects the orders in
which a whole tick without a stale load can start them. `ParallelOrder.linearExtends` is what such
an order is good for: it is a permutation of the systems that respects every edge of the hazard
graph. `TickOrder` is the order of a tick in a given mode.
-/

namespace MithAtomas

open Runs LinearExtension

/-- `enum class SchedulerMode`. -/
inductive SchedulerMode where
  | parallel
  | sequential
  deriving DecidableEq, Repr

variable {N : ℕ} {σ : Type}

/-- The descriptors of registered systems. -/
def descriptors (systems : Fin N → System σ) : Fin N → SystemDescriptor :=
  fun i => (systems i).describe

/-- `systems_[i]->tick(registry, ctx, delta_time)` for each `i` of `order`. -/
def runInOrder (systems : Fin N → System σ) (order : List (Fin N)) (s : σ) : σ :=
  execute (fun i => (systems i).tick) order s

/-- `tick` in `Sequential` mode. -/
def tickSequential (systems : Fin N → System σ) (s : σ) : σ :=
  runInOrder systems (buildOrder (descriptors systems)) s

/-- The state that system `i` finds when its turn comes. -/
def seenBy (systems : Fin N → System σ) (order : List (Fin N)) (s : σ) (i : Fin N) : σ :=
  runInOrder systems (before order i) s

/-- The orders in which a parallel tick, from its start to its return, can start the systems when
no load of its seeding loop is stale. -/
def ParallelOrder (desc : Fin N → SystemDescriptor) (order : List (Fin N)) : Prop :=
  ∃ (W : ℕ) (ls : List (TickLabel N W)) (s : TickState N W),
    Run (Guarded (Step (buildHazardGraph desc)) (FreshLoad (buildHazardGraph desc)))
      (TickState.initial (buildHazardGraph desc) W) ls s ∧
    s.main = .returned ∧ s.started = order

/-- The order in which one tick runs the systems. -/
def TickOrder (desc : Fin N → SystemDescriptor) : SchedulerMode → List (Fin N) → Prop
  | .parallel, order => ParallelOrder desc order
  | .sequential, order => order = buildOrder desc

section

variable {desc : Fin N → SystemDescriptor} {mode : SchedulerMode} {order : List (Fin N)}

/-- Later systems are not before earlier ones. -/
theorem linearExtends_buildOrder (hnames : Function.Injective fun i => (desc i).name) :
    LinearExtends (ConflictsBefore desc) (buildOrder desc) := by
  refine (pairwise_buildOrder hnames).imp ?_
  rintro a b hab ⟨hba, -⟩
  exact lt_asymm hab hba

theorem ParallelOrder.perm (hnames : Function.Injective fun i => (desc i).name)
    (h : ParallelOrder desc order) : order.Perm (List.finRange N) := by
  obtain ⟨W, ls, s, hrun, hr, rfl⟩ := h
  have hI : Fresh (dispatchGraph desc hnames) s := Fresh.of_run hrun
  exact hI.perm_started hr

theorem ParallelOrder.linearExtends (hnames : Function.Injective fun i => (desc i).name)
    (h : ParallelOrder desc order) : LinearExtends (ConflictsBefore desc) order := by
  obtain ⟨W, ls, s, hrun, hr, rfl⟩ := h
  have hpair := Fresh.started_pairwise (g := dispatchGraph desc hnames) hrun
  refine hpair.imp ?_
  intro a b hnot hba
  exact hnot (edge_iff.mpr hba)

/-- Every system runs once in a tick. -/
theorem TickOrder.perm (hnames : Function.Injective fun i => (desc i).name)
    (h : TickOrder desc mode order) : order.Perm (List.finRange N) := by
  cases mode with
  | parallel => exact ParallelOrder.perm hnames h
  | sequential =>
    obtain rfl : order = buildOrder desc := h
    exact perm_buildOrder desc

/-- Of two conflicting systems the one with the smaller name runs first. -/
theorem TickOrder.linearExtends (hnames : Function.Injective fun i => (desc i).name)
    (h : TickOrder desc mode order) : LinearExtends (ConflictsBefore desc) order := by
  cases mode with
  | parallel => exact ParallelOrder.linearExtends hnames h
  | sequential =>
    obtain rfl : order = buildOrder desc := h
    exact linearExtends_buildOrder hnames

theorem TickOrder.nodup (hnames : Function.Injective fun i => (desc i).name)
    (h : TickOrder desc mode order) : order.Nodup :=
  (h.perm hnames).nodup_iff.mpr (List.nodup_finRange N)

theorem TickOrder.mem (hnames : Function.Injective fun i => (desc i).name)
    (h : TickOrder desc mode order) (i : Fin N) : i ∈ order :=
  (h.perm hnames).mem_iff.mpr (List.mem_finRange i)

/-- Of two conflicting systems the one with the smaller name has run when the other's turn comes. -/
theorem TickOrder.mem_before (hnames : Function.Injective fun i => (desc i).name)
    (h : TickOrder desc mode order) {i j : Fin N} (hlt : (desc i).name < (desc j).name)
    (hhazard : haveHazard (desc i) (desc j) = true) : i ∈ before order j := by
  have hne : i ≠ j := by
    rintro rfl
    exact lt_irrefl _ hlt
  exact mem_before_of_linearExtends (h.linearExtends hnames) (h.mem hnames i) (h.mem hnames j)
    hne ⟨hlt, hhazard⟩

end

end MithAtomas
