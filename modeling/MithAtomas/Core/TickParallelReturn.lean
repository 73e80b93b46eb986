import MithAtomas.Core.TickParallelOrder

/-!
# When the parallel tick returns

`tick_parallel_` keeps its counters, the count of completed systems, the mutex, the condition
variable and the dispatcher on its own stack, and every task it submits refers to them. They may go
out of scope only when no task is left that has a step to take: nothing queued and every worker
back in `idle` (`LocalsDone`).

The main thread returns when it finds `completed == N`, and `completed` reaches `N` *before* the
worker that counted last has locked the mutex. A main thread that tests in between returns while
that worker is about to lock a mutex that is gone. `LateWorker` names this window and
`locals_outlive_tasks_iff` says that it is the only one: along interleavings whose loads are fresh,
the tick returns with its locals free in every state if and only if no test that finds the count
full falls into the window. Two facts carry this:

* `Fresh.quiet_of_full` — at a full count nothing is queued and no worker holds a task;
* `MainOwns.step` — while the main thread tests, no worker is inside the mutex.
-/

namespace MithAtomas

open Runs WorkerState

variable {N W : ℕ}

/-- No task of this tick has a step left. -/
def LocalsDone (s : TickState N W) : Prop :=
  s.tasks = [] ∧ ∀ w, s.workers w = .idle

instance (s : TickState N W) : Decidable (LocalsDone s) :=
  inferInstanceAs (Decidable (_ ∧ _))

/-- Some worker has counted the last system and has not locked `done_mtx` yet. -/
def LateWorker (s : TickState N W) : Prop :=
  ∃ w, s.workers w = .locking

/-- A test by the main thread that finds the count full finds no late worker; every other step is
unconstrained. -/
def TimelyTest (s : TickState N W) (l : TickLabel N W) : Prop :=
  l = .test → s.completed = N → ¬ LateWorker s

/-- While the main thread holds `done_mtx`, no worker does. -/
def MainOwns (s : TickState N W) : Prop :=
  s.main = .testing → ∀ w, s.workers w ≠ .notifying ∧ s.workers w ≠ .unlocking

/-! ### Mutual exclusion -/

section Mutex

variable {g : HazardGraph N} {s s' : TickState N W} {l : TickLabel N W}

theorem MainOwns.initial (g : HazardGraph N) : MainOwns (TickState.initial g W) :=
  fun _ _ => ⟨by rintro ⟨⟩, by rintro ⟨⟩⟩

/-- A worker that moves to a state outside the mutex keeps the exclusion. -/
theorem MainOwns.setWorker (hI : MainOwns s) {w : Fin W} {p : WorkerState N}
    (hp : p ≠ .notifying ∧ p ≠ .unlocking) : MainOwns (s.setWorker w p) := by
  intro hm x
  change Function.update s.workers w p x ≠ _ ∧ Function.update s.workers w p x ≠ _
  by_cases hx : x = w
  · subst hx
    rw [Function.update_self]
    exact hp
  · rw [Function.update_of_ne hx]
    exact hI hm x

theorem MainOwns.step (hI : MainOwns s) (hst : Step g s l s') : MainOwns s' := by
  cases hst
  case lockMain hm hfree => exact fun _ => hfree.2
  case lockWorker w hw hfree => exact fun hm => absurd hm hfree.1
  case notify w hw =>
    intro hm
    -- a main thread that is testing holds the mutex, so `w` could not be notifying
    have htest : s.main = .testing := by
      change (if s.main = .blocked then _ else _) = _ at hm
      split at hm
      · cases hm
      · exact hm
    exact absurd hw (hI htest w).1
  case unlock w hw => exact fun hm => absurd hw (hI hm w).2
  case load i hm =>
    intro hm'
    change (if _ then _ else _) = _ at hm'
    split at hm' <;> cases hm'
  case test hm =>
    intro hm'
    change (if _ then _ else _) = _ at hm'
    split at hm' <;> cases hm'
  case seed i hm => rintro ⟨⟩
  case seeded hm => rintro ⟨⟩
  case fetchAdd w i hw =>
    refine MainOwns.setWorker hI ?_
    split <;> exact ⟨by rintro ⟨⟩, by rintro ⟨⟩⟩
  case fetchSub w i dep deps hw =>
    refine MainOwns.setWorker hI ?_
    split <;> exact ⟨by rintro ⟨⟩, by rintro ⟨⟩⟩
  all_goals exact MainOwns.setWorker hI ⟨by rintro ⟨⟩, by rintro ⟨⟩⟩

/-- The main thread returns by a test that finds the count full, and stays returned. -/
theorem Step.to_returned (hst : Step g s l s') (hr : s'.main = .returned) :
    (l = .test ∧ s.main = .testing ∧ s.completed = N ∧ s' = { s with main := .returned }) ∨
      s.main = .returned := by
  cases hst
  case test hm =>
    change (if _ then _ else _) = _ at hr
    split at hr
    · rename_i hc
      exact .inl ⟨rfl, hm, hc, by rw [if_pos hc]⟩
    · cases hr
  case load i hm =>
    change (if _ then _ else _) = _ at hr
    split at hr <;> cases hr
  case notify w hw =>
    change (if _ then _ else _) = _ at hr
    split at hr
    · cases hr
    · exact .inr hr
  all_goals first | cases hr | exact .inr hr

/-- Once the tick has returned and its locals are free, nothing happens any more. -/
theorem LocalsDone.stuck (hd : LocalsDone s) (hr : s.main = .returned) : Stuck (Step g) s := by
  intro l s' hst
  obtain ⟨hempty, hidle⟩ := hd
  cases hst
  case take w i rest hw hq =>
    rw [hempty] at hq
    cases hq
  case lockMain hm hfree => cases hr.symm.trans hm
  all_goals first
    | cases (hidle _).symm.trans ‹s.workers _ = _›
    | (rename_i hm; cases hr.symm.trans hm)

end Mutex

/-! ### The window -/

section Window

variable {g : DispatchGraph N} {s s' : TickState N W} {l : TickLabel N W}

/-- At a full count, while the main thread tests, the only worker that still needs the locals is a
late one. -/
theorem Fresh.localsDone_iff (hI : Fresh g s) (hown : MainOwns s) (hm : s.main = .testing)
    (hc : s.completed = N) : LocalsDone s ↔ ¬ LateWorker s := by
  constructor
  · rintro ⟨-, hidle⟩ ⟨w, hw⟩
    cases (hidle w).symm.trans hw
  · intro hlate
    obtain ⟨hempty, hfree⟩ := hI.quiet_of_full hc
    refine ⟨hempty, fun w => ?_⟩
    have hhold := hfree w
    obtain ⟨hnotify, hunlock⟩ := hown hm w
    cases hw : s.workers w with
    | idle => rfl
    | locking => exact absurd ⟨w, hw⟩ hlate
    | notifying => exact absurd hw hnotify
    | unlocking => exact absurd hw hunlock
    | taken i | running i | releasing i deps | dispatching i dep deps =>
      rw [hw] at hhold
      cases hhold

/-- What a fresh interleaving carries besides `Fresh`: the mutex, and, while every test was timely,
a return with free locals. -/
structure TimelyReturn (g : DispatchGraph N) (s : TickState N W) : Prop where
  fresh : Fresh g s
  owns : MainOwns s
  done : s.main = .returned → LocalsDone s

theorem TimelyReturn.initial (g : DispatchGraph N) :
    TimelyReturn g (TickState.initial g.toHazardGraph W) where
  fresh := Fresh.initial g
  owns := MainOwns.initial g.toHazardGraph
  done := fun _ => ⟨rfl, fun _ => rfl⟩

/-- **Timely tests return with free locals.** -/
theorem TimelyReturn.step (hI : TimelyReturn g s) (hst : Step g.toHazardGraph s l s')
    (hgood : FreshLoad g.toHazardGraph s l) (htime : TimelyTest s l) : TimelyReturn g s' where
  fresh := hI.fresh.step hst hgood
  owns := hI.owns.step hst
  done := by
    intro hr
    obtain ⟨rfl, hm, hc, rfl⟩ | hr' := hst.to_returned hr
    · exact (hI.fresh.localsDone_iff hI.owns hm hc).mpr (htime rfl hc)
    · exact absurd hst ((hI.done hr').stuck hr' l s')

/-- **Free locals mean a timely test**: a test that finds the count full returns. -/
theorem Fresh.timelyTest (hI : Fresh g s) (hown : MainOwns s) (hst : Step g.toHazardGraph s l s')
    (hdone : s'.main = .returned → LocalsDone s') : TimelyTest s l := by
  rintro rfl hc
  cases hst with
  | test hm =>
    have hd : LocalsDone s := hdone (if_pos hc)
    exact (hI.localsDone_iff hown hm hc).mp hd

end Window

/-- Along interleavings whose loads are fresh, the tick has returned only with its locals free if
and only if every test that found the count full was timely. -/
theorem locals_outlive_tasks_iff (desc : Fin N → SystemDescriptor)
    (hnames : Function.Injective fun i => (desc i).name) (ls : List (TickLabel N W))
    (s : TickState N W) :
    (Run (Guarded (Step (buildHazardGraph desc))
        fun m l => FreshLoad (buildHazardGraph desc) m l ∧ TimelyTest m l)
      (TickState.initial (buildHazardGraph desc) W) ls s →
        s.main = .returned → LocalsDone s) ∧
    (Run (Guarded (Step (buildHazardGraph desc))
        fun m l => FreshLoad (buildHazardGraph desc) m l ∧ TimelyTest m l)
      (TickState.initial (buildHazardGraph desc) W) ls s ↔
     Run (fun m l m' => Guarded (Step (buildHazardGraph desc))
          (FreshLoad (buildHazardGraph desc)) m l m' ∧ (m'.main = .returned → LocalsDone m'))
      (TickState.initial (buildHazardGraph desc) W) ls s) := by
  set g := dispatchGraph desc hnames
  have hkeep : ∀ (m : TickState N W) l m', TimelyReturn g m →
      Guarded (Step (buildHazardGraph desc))
        (fun m l => FreshLoad (buildHazardGraph desc) m l ∧ TimelyTest m l) m l m' →
      TimelyReturn g m' := by
    rintro m l m' hI ⟨⟨hgood, htime⟩, hst⟩
    exact hI.step hst hgood htime
  refine ⟨fun hrun => (hrun.invariant hkeep (TimelyReturn.initial g)).done, ?_, ?_⟩
  · intro hrun
    refine (hrun.strengthen hkeep (P := fun _ _ m' => m'.main = .returned → LocalsDone m')
      (fun m l m' hI hst => (hkeep m l m' hI hst).done) (TimelyReturn.initial g)).mono ?_
    rintro m l m' ⟨⟨⟨hgood, -⟩, hst⟩, hdone⟩
    exact ⟨⟨hgood, hst⟩, hdone⟩
  · -- a return before all workers are done is the one step that is ruled out
    intro hrun
    refine (hrun.strengthen (P := fun m l _ => TimelyTest m l)
      (I := fun m => Fresh g m ∧ MainOwns m)
      ?_ ?_ ⟨Fresh.initial g, MainOwns.initial g.toHazardGraph⟩).mono ?_
    · rintro m l m' ⟨hI, hown⟩ ⟨⟨hgood, hst⟩, -⟩
      exact ⟨hI.step hst hgood, hown.step hst⟩
    · rintro m l m' ⟨hI, hown⟩ ⟨⟨-, hst⟩, hdone⟩
      exact hI.timelyTest hown hst hdone
    · rintro m l m' ⟨⟨⟨hgood, hst⟩, -⟩, htime⟩
      exact ⟨⟨hgood, htime⟩, hst⟩

/-- One system that touches nothing. -/
def loneSystem : Fin 1 → SystemDescriptor := ![⟨"Lone", [], [], [], []⟩]

/-- One worker runs the system, counts it and leaves the mutex; then the main thread tests. -/
def timelyLabels : List (TickLabel 1 1) :=
  [.load 0, .seed 0, .seeded, .take 0 0, .start 0 0, .finish 0 0, .fetchAdd 0 0, .lockWorker 0,
    .notify 0, .unlock 0, .lockMain, .test]

instance (s : TickState N W) (l : TickLabel N W) : Decidable (TimelyTest s l) :=
  match l with
  | .test => decidable_of_iff (s.completed = N → ¬ ∃ w, s.workers w = .locking)
      ⟨fun h _ => h, fun h => h rfl⟩
  | .load _ | .seed _ | .seeded | .lockMain | .take _ _ | .start _ _ | .finish _ _
  | .fetchSub _ _ _ | .submit _ _ | .fetchAdd _ _ | .lockWorker _ | .notify _ | .unlock _ =>
    isTrue fun h => nomatch h

/-- The fresh and timely steps as a function. -/
def TickState.execTimely (g : HazardGraph N) (s : TickState N W) (l : TickLabel N W) :
    Option (TickState N W) :=
  if TimelyTest s l then s.execFresh g l else none

theorem Guarded.of_execTimely {g : HazardGraph N} {s s' : TickState N W} {l : TickLabel N W}
    (h : s.execTimely g l = some s') :
    Guarded (Step g) (fun m l => FreshLoad g m l ∧ TimelyTest m l) s l s' := by
  obtain ⟨htime, he⟩ := Option.ite_none_right_eq_some.mp h
  obtain ⟨hgood, hst⟩ := Guarded.of_execFresh he
  exact ⟨⟨hgood, htime⟩, hst⟩

theorem loneSystem_returns : ∃ s : TickState 1 1,
    Run (Guarded (Step (buildHazardGraph loneSystem))
        fun m l => FreshLoad (buildHazardGraph loneSystem) m l ∧ TimelyTest m l)
      (TickState.initial (buildHazardGraph loneSystem) 1) timelyLabels s ∧
      s.main = .returned ∧ LocalsDone s := by
  have hnames : Function.Injective fun i => (loneSystem i).name := by decide
  obtain ⟨s, hs, hr⟩ : ∃ s, timelyLabels.foldlM
      (TickState.execTimely (buildHazardGraph loneSystem))
      (TickState.initial (buildHazardGraph loneSystem) 1) = some s ∧ s.main = .returned :=
    ⟨_, rfl, by decide⟩
  have hrun := Run.of_foldlM Guarded.of_execTimely hs
  exact ⟨s, hrun, hr, (locals_outlive_tasks_iff loneSystem hnames timelyLabels s).1 hrun hr⟩

/-- The main thread tests between the worker's `fetch_add` and its lock. -/
def lateLabels : List (TickLabel 1 1) :=
  [.load 0, .seed 0, .seeded, .take 0 0, .start 0 0, .finish 0 0, .fetchAdd 0 0, .lockMain, .test]

theorem loneSystem_returns_early :
    ¬ ∀ (N W : ℕ) (desc : Fin N → SystemDescriptor),
      (Function.Injective fun i => (desc i).name) →
      ∀ (ls : List (TickLabel N W)) (s : TickState N W),
        Run (Step (buildHazardGraph desc)) (TickState.initial (buildHazardGraph desc) W) ls s →
          s.main = .returned → LocalsDone s := by
  intro hclaim
  obtain ⟨s, hs, hr, hw⟩ : ∃ s, lateLabels.foldlM
      (TickState.exec (buildHazardGraph loneSystem))
      (TickState.initial (buildHazardGraph loneSystem) 1) = some s ∧
      s.main = .returned ∧ s.workers 0 = .locking := ⟨_, rfl, by decide, by decide⟩
  have hd := hclaim 1 1 loneSystem (by decide) _ s (Run.of_foldlM Step.of_exec hs) hr
  cases (hd.2 0).symm.trans hw

end MithAtomas
