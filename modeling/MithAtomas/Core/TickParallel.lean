import MithAtomas.Framework.Runs
import MithAtomas.Core.HazardGraph

/-!
# One parallel tick as a step relation

`SystemScheduler::tick_parallel_` and the `ThreadPool` of `src/core/scheduler.cpp`, as a step
relation over the main thread and the pool's workers. Every step is one atomic access of the
source — one load, one `submit`, one `fetch_sub`, one `fetch_add`, one operation on the mutex or
the condition variable — so a run (`Runs.Run (Step g)`) is one interleaving.

The main thread (`MainState`) seeds: for each index it loads the live counter and, if that is
zero, submits the system; then it locks `done_mtx` and waits for `completed == N`. A worker
(`WorkerState`) takes the head of the FIFO, runs the system's `tick`, decrements the counter of
each dependent in turn, submits a dependent whose counter it took from one to zero, and counts
itself in `completed`; the worker that makes it `N` locks, notifies and unlocks.

`submitted`, `started`, `finished`, `released` and `ended` are history: no step reads them.

The seeding loop reads the counters the workers are already decrementing. `FreshLoad` is the
condition on a step that this does not go wrong: the load of a system that has predecessors in the
hazard graph does not find its counter at zero.
-/

namespace MithAtomas

open Runs

/-- `resolve_pool_size`; `hc` is what `std::thread::hardware_concurrency()` returns. -/
def resolvePoolSize (requested hc : ℕ) : ℕ :=
  if requested > 0 then requested else if hc ≤ 1 then 1 else hc - 1

/-- `ThreadPool::ThreadPool(num_workers)`: the number of threads it starts. -/
def ThreadPool.numWorkers (num_workers : ℕ) : ℕ :=
  if num_workers = 0 then 1 else num_workers

/-- Where the main thread is in `tick_parallel_`. -/
inductive MainState (N : ℕ) where
  /-- in the seeding loop, about to load `in_degree[i]` -/
  | seeding (i : ℕ)
  /-- the load found zero; `dispatch(i)` is pending -/
  | dispatching (i : Fin N)
  /-- about to lock `done_mtx` -/
  | locking
  /-- holds `done_mtx`, about to test `completed == N` -/
  | testing
  /-- in `done_cv.wait`, the mutex released -/
  | blocked
  | returned
  deriving DecidableEq

/-- Where one worker is in `worker_loop_` and in the task it runs. -/
inductive WorkerState (N : ℕ) where
  /-- waiting for a task -/
  | idle
  /-- popped the task of `i`, has not called `tick` yet -/
  | taken (i : Fin N)
  /-- inside `systems_[i]->tick` -/
  | running (i : Fin N)
  /-- in the loop over `dependents_[i]`, with `deps` still to decrement -/
  | releasing (i : Fin N) (deps : List (Fin N))
  /-- its `fetch_sub` took `dep` from one to zero; `dispatch(dep)` is pending -/
  | dispatching (i dep : Fin N) (deps : List (Fin N))
  /-- its `fetch_add` reached `N`; about to lock `done_mtx` -/
  | locking
  /-- holds `done_mtx`, about to call `done_cv.notify_one()` -/
  | notifying
  /-- holds `done_mtx`, about to release it -/
  | unlocking
  deriving DecidableEq

structure TickState (N W : ℕ) where
  main : MainState N
  inDegree : Fin N → ℤ
  completed : ℕ
  /-- the pool's FIFO -/
  tasks : List (Fin N)
  workers : Fin W → WorkerState N
  /-- every `submit`, in order -/
  submitted : List (Fin N)
  /-- every call of `tick`, in the order they began -/
  started : List (Fin N)
  /-- every call of `tick` that returned -/
  finished : List (Fin N)
  /-- every `fetch_sub`: the system whose task did it, and the dependent -/
  released : List (Fin N × Fin N)
  /-- every `fetch_add` on `completed` -/
  ended : List (Fin N)

inductive TickLabel (N W : ℕ) where
  | load (i : Fin N)
  | seed (i : Fin N)
  | seeded
  | lockMain
  | test
  | take (w : Fin W) (i : Fin N)
  | start (w : Fin W) (i : Fin N)
  | finish (w : Fin W) (i : Fin N)
  | fetchSub (w : Fin W) (i dep : Fin N)
  | submit (w : Fin W) (dep : Fin N)
  | fetchAdd (w : Fin W) (i : Fin N)
  | lockWorker (w : Fin W)
  | notify (w : Fin W)
  | unlock (w : Fin W)

namespace TickState

variable {N W : ℕ}

/-- The state on entry: the counters copied, nothing submitted, every worker waiting. With no
system registered the call returns at once. -/
def initial (g : HazardGraph N) (W : ℕ) : TickState N W where
  main := if N = 0 then .returned else .seeding 0
  inDegree := g.inDegreeInitial
  completed := 0
  tasks := []
  workers := fun _ => .idle
  submitted := []
  started := []
  finished := []
  released := []
  ended := []

/-- Nobody holds `done_mtx`. -/
def MutexFree (s : TickState N W) : Prop :=
  s.main ≠ .testing ∧ ∀ w, s.workers w ≠ .notifying ∧ s.workers w ≠ .unlocking

instance (s : TickState N W) : Decidable s.MutexFree :=
  inferInstanceAs (Decidable (_ ∧ _))

def setWorker (s : TickState N W) (w : Fin W) (p : WorkerState N) : TickState N W :=
  { s with workers := Function.update s.workers w p }

/-- `pool_->submit` of the task of `i`. -/
def submit (s : TickState N W) (i : Fin N) : TickState N W :=
  { s with tasks := s.tasks ++ [i], submitted := s.submitted ++ [i] }

end TickState

open TickState in
/-- One atomic step of `tick_parallel_` on the graph `g`. -/
inductive Step {N W : ℕ} (g : HazardGraph N) : TickState N W → TickLabel N W → TickState N W → Prop
  | load {s : TickState N W} {i : Fin N} (hm : s.main = .seeding i) :
      Step g s (.load i)
        { s with main := if s.inDegree i = 0 then .dispatching i else .seeding (i + 1) }
  | seed {s : TickState N W} {i : Fin N} (hm : s.main = .dispatching i) :
      Step g s (.seed i) { s.submit i with main := .seeding (i + 1) }
  | seeded {s : TickState N W} (hm : s.main = .seeding N) :
      Step g s .seeded { s with main := .locking }
  | lockMain {s : TickState N W} (hm : s.main = .locking) (hfree : s.MutexFree) :
      Step g s .lockMain { s with main := .testing }
  | test {s : TickState N W} (hm : s.main = .testing) :
      Step g s .test { s with main := if s.completed = N then .returned else .blocked }
  | take {s : TickState N W} {w : Fin W} {i : Fin N} {rest : List (Fin N)}
      (hw : s.workers w = .idle) (ht : s.tasks = i :: rest) :
      Step g s (.take w i) { s.setWorker w (.taken i) with tasks := rest }
  | start {s : TickState N W} {w : Fin W} {i : Fin N} (hw : s.workers w = .taken i) :
      Step g s (.start w i) { s.setWorker w (.running i) with started := s.started ++ [i] }
  | finish {s : TickState N W} {w : Fin W} {i : Fin N} (hw : s.workers w = .running i) :
      Step g s (.finish w i)
        { s.setWorker w (.releasing i (g.dependents i)) with finished := s.finished ++ [i] }
  | fetchSub {s : TickState N W} {w : Fin W} {i dep : Fin N} {deps : List (Fin N)}
      (hw : s.workers w = .releasing i (dep :: deps)) :
      Step g s (.fetchSub w i dep)
        { s.setWorker w (if s.inDegree dep = 1 then .dispatching i dep deps
                         else .releasing i deps) with
          inDegree := Function.update s.inDegree dep (s.inDegree dep - 1)
          released := s.released ++ [(i, dep)] }
  | submit {s : TickState N W} {w : Fin W} {i dep : Fin N} {deps : List (Fin N)}
      (hw : s.workers w = .dispatching i dep deps) :
      Step g s (.submit w dep) ((s.submit dep).setWorker w (.releasing i deps))
  | fetchAdd {s : TickState N W} {w : Fin W} {i : Fin N} (hw : s.workers w = .releasing i []) :
      Step g s (.fetchAdd w i)
        { s.setWorker w (if s.completed + 1 = N then .locking else .idle) with
          completed := s.completed + 1
          ended := s.ended ++ [i] }
  | lockWorker {s : TickState N W} {w : Fin W} (hw : s.workers w = .locking)
      (hfree : s.MutexFree) :
      Step g s (.lockWorker w) (s.setWorker w .notifying)
  | notify {s : TickState N W} {w : Fin W} (hw : s.workers w = .notifying) :
      Step g s (.notify w)
        { s.setWorker w .unlocking with
          main := if s.main = .blocked then .locking else s.main }
  | unlock {s : TickState N W} {w : Fin W} (hw : s.workers w = .unlocking) :
      Step g s (.unlock w) (s.setWorker w .idle)

/-- The step labelled `l`, if it is enabled: `Step` as a function. -/
def TickState.exec {N W : ℕ} (g : HazardGraph N) (s : TickState N W) :
    TickLabel N W → Option (TickState N W)
  -- the scan for roots, system by system
  | .load i =>
    if s.main = .seeding i then
      some { s with main := if s.inDegree i = 0 then .dispatching i else .seeding (i + 1) }
    else none
  | .seed i =>
    if s.main = .dispatching i then some { s.submit i with main := .seeding (i + 1) } else none
  | .seeded => if s.main = .seeding N then some { s with main := .locking } else none
  -- the wait: the main thread sleeps until all systems have been counted
  | .lockMain =>
    if s.main = .locking ∧ s.MutexFree then some { s with main := .testing } else none
  | .test =>
    if s.main = .testing then
      some { s with main := if s.completed = N then .returned else .blocked }
    else none
  -- a worker takes the task at the front, and runs it
  | .take w i =>
    match s.tasks with
    | [] => none
    | k :: rest =>
      if s.workers w = .idle ∧ k = i then some { s.setWorker w (.taken i) with tasks := rest }
      else none
  | .start w i =>
    if s.workers w = .taken i then
      some { s.setWorker w (.running i) with started := s.started ++ [i] }
    else none
  | .finish w i =>
    if s.workers w = .running i then
      some { s.setWorker w (.releasing i (g.dependents i)) with finished := s.finished ++ [i] }
    else none
  -- each dependent loses one predecessor; the last one to go submits it
  | .fetchSub w i dep =>
    match s.workers w with
    | .releasing k (d :: deps) =>
      if k = i ∧ d = dep then
        some { s.setWorker w (if s.inDegree dep = 1 then .dispatching i dep deps
                              else .releasing i deps) with
               inDegree := Function.update s.inDegree dep (s.inDegree dep - 1)
               released := s.released ++ [(i, dep)] }
      else none
    | _ => none
  | .submit w dep =>
    match s.workers w with
    | .dispatching i d deps =>
      if d = dep then some ((s.submit dep).setWorker w (.releasing i deps)) else none
    | _ => none
  -- whoever counts the last system notifies under the lock
  | .fetchAdd w i =>
    if s.workers w = .releasing i [] then
      some { s.setWorker w (if s.completed + 1 = N then .locking else .idle) with
             completed := s.completed + 1
             ended := s.ended ++ [i] }
    else none
  | .lockWorker w =>
    if s.workers w = .locking ∧ s.MutexFree then some (s.setWorker w .notifying) else none
  | .notify w =>
    if s.workers w = .notifying then
      some { s.setWorker w .unlocking with
             main := if s.main = .blocked then .locking else s.main }
    else none
  | .unlock w => if s.workers w = .unlocking then some (s.setWorker w .idle) else none

theorem Step.of_exec {N W : ℕ} {g : HazardGraph N} {s s' : TickState N W} {l : TickLabel N W}
    (h : s.exec g l = some s') : Step g s l s' := by
  cases l
  case take w i =>
    simp only [TickState.exec] at h
    split at h
    · cases h
    · obtain ⟨⟨hw, rfl⟩, he⟩ := Option.ite_none_right_eq_some.mp h
      obtain rfl := Option.some.inj he
      exact Step.take hw ‹s.tasks = _›
  case fetchSub w i dep =>
    simp only [TickState.exec] at h
    split at h
    · obtain ⟨⟨rfl, rfl⟩, he⟩ := Option.ite_none_right_eq_some.mp h
      obtain rfl := Option.some.inj he
      exact Step.fetchSub ‹s.workers w = _›
    · cases h
  case submit w dep =>
    simp only [TickState.exec] at h
    split at h
    · obtain ⟨rfl, he⟩ := Option.ite_none_right_eq_some.mp h
      obtain rfl := Option.some.inj he
      exact Step.submit ‹s.workers w = _›
    · cases h
  case lockMain =>
    obtain ⟨⟨hm, hfree⟩, he⟩ := Option.ite_none_right_eq_some.mp h
    obtain rfl := Option.some.inj he
    exact Step.lockMain hm hfree
  case lockWorker w =>
    obtain ⟨⟨hw, hfree⟩, he⟩ := Option.ite_none_right_eq_some.mp h
    obtain rfl := Option.some.inj he
    exact Step.lockWorker hw hfree
  all_goals
    -- the labels that only ask for the state of one thread
    obtain ⟨hm, he⟩ := Option.ite_none_right_eq_some.mp h
    obtain rfl := Option.some.inj he
    constructor
    exact hm

/-- A load by the seeding loop does not find zero in the counter of a system with predecessors;
every other step is unconstrained. -/
def FreshLoad {N W : ℕ} (g : HazardGraph N) (s : TickState N W) (l : TickLabel N W) : Prop :=
  ∀ i, l = .load i → g.inDegreeInitial i ≠ 0 → s.inDegree i ≠ 0

instance {N W : ℕ} (g : HazardGraph N) (s : TickState N W) :
    DecidablePred (FreshLoad g s) := fun l =>
  match l with
  | .load i => decidable_of_iff (g.inDegreeInitial i ≠ 0 → s.inDegree i ≠ 0)
      ⟨fun h _ hi => TickLabel.load.inj hi ▸ h, fun h => h i rfl⟩
  | .seed _ | .seeded | .lockMain | .test | .take _ _ | .start _ _ | .finish _ _
  | .fetchSub _ _ _ | .submit _ _ | .fetchAdd _ _ | .lockWorker _ | .notify _ | .unlock _ =>
    isTrue fun _ hi => nomatch hi

/-- The fresh steps as a function. -/
def TickState.execFresh {N W : ℕ} (g : HazardGraph N) (s : TickState N W) (l : TickLabel N W) :
    Option (TickState N W) :=
  if FreshLoad g s l then s.exec g l else none

theorem Guarded.of_execFresh {N W : ℕ} {g : HazardGraph N} {s s' : TickState N W}
    {l : TickLabel N W} (h : s.execFresh g l = some s') :
    Guarded (Step g) (FreshLoad g) s l s' := by
  obtain ⟨hgood, he⟩ := Option.ite_none_right_eq_some.mp h
  exact ⟨hgood, Step.of_exec he⟩

end MithAtomas
