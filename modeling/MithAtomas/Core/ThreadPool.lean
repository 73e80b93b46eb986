import MithAtomas.Core.TickParallel
import MithAtomas.Framework.TaskQueue

/-!
# The thread pool

`ThreadPool` of `src/core/scheduler.cpp` with its mutex and its condition variable: the workers in
`worker_loop_`, the thread that owns the pool, and `submit`, which the owner calls and the tasks
themselves. Every step is one operation on the mutex or the condition variable, or one locked
section; a sleeping worker may wake without a reason.

The pool is a `TaskQueue` (`run_taskQueue`): the tasks are taken in the order in which they were
submitted, each once, and the destructor returns only when all of them are finished, those included
that tasks submitted while it was waiting. No wake-up is lost: a task waits behind a sleeping worker
only while somebody else is on the way to it (`State.Awake`), so that work never stands still before
all of it is done (`quiescent_of_stuck`), and it comes to an end (`weight_lt`).
-/

namespace MithAtomas.ThreadPool

open Runs

/-- Who runs. -/
inductive Thread (W : ℕ) where
  | owner
  | worker (w : Fin W)

/-- Where a thread is in `submit(t)`. -/
inductive Call (T : Type) where
  /-- about to lock `mtx_` -/
  | locking (t : T)
  /-- holds `mtx_`, about to push and to release it -/
  | pushing (t : T)
  /-- about to call `cv_.notify_one()` -/
  | notifying

/-- Where a worker is in `worker_loop_`. -/
inductive Worker (T : Type) where
  /-- about to lock `mtx_`, at first or after it was woken -/
  | locking
  /-- holds `mtx_`, about to test what it waits for -/
  | testing
  /-- in `cv_.wait`, the mutex released -/
  | asleep
  /-- in `task()`, and there perhaps in `submit` -/
  | running (t : T) (call : Option (Call T))
  | returned

/-- Where the owner is. -/
inductive Owner (T : Type) where
  /-- outside the destructor, perhaps in `submit` -/
  | outside (call : Option (Call T))
  /-- in the destructor, about to lock `mtx_` -/
  | locking
  /-- holds `mtx_`, about to set `stop_` and to release it -/
  | stopping
  /-- about to call `cv_.notify_all()` -/
  | notifying
  /-- about to join the worker `k`, if there is one -/
  | joining (k : ℕ)
  | destroyed

structure State (T : Type) (W : ℕ) where
  owner : Owner T
  workers : Fin W → Worker T
  tasks : List T
  stop : Bool

inductive Label (T : Type) (W : ℕ) where
  | call (θ : Thread W) (t : T)
  | lockCall (θ : Thread W)
  | push (θ : Thread W) (t : T)
  | notifyOne (θ : Thread W) (w : Option (Fin W))
  | lock (w : Fin W)
  | sleep (w : Fin W)
  | wake (w : Fin W)
  | exit (w : Fin W)
  | take (w : Fin W) (t : T)
  | finish (w : Fin W) (t : T)
  | destroy
  | lockStop
  | setStop
  | notifyAll
  | join
  | joined

variable {T : Type} {W : ℕ}

/-- The call that a task makes. -/
def Worker.setCall (c : Option (Call T)) : Worker T → Worker T
  | .running t _ => .running t c
  | p => p

/-- `notify_all`, for one worker. -/
def Worker.woken : Worker T → Worker T
  | .asleep => .locking
  | p => p

namespace State

/-- The pool when its constructor has started the workers. -/
def initial (W : ℕ) : State T W where
  owner := .outside none
  workers := fun _ => .locking
  tasks := []
  stop := false

variable (s : State T W)

def setWorker (w : Fin W) (p : Worker T) : State T W :=
  { s with workers := Function.update s.workers w p }

/-- The thread is where it may call `submit`, and `c` is the call it is in. -/
def Calls (c : Option (Call T)) : Thread W → Prop
  | .owner => s.owner = .outside c
  | .worker w => ∃ t, s.workers w = .running t c

def setCall (c : Option (Call T)) : Thread W → State T W
  | .owner => { s with owner := .outside c }
  | .worker w => s.setWorker w ((s.workers w).setCall c)

/-- Nobody holds `mtx_`. -/
def MutexFree : Prop :=
  s.owner ≠ .stopping ∧ (∀ w, s.workers w ≠ .testing) ∧ ∀ θ t, ¬ s.Calls (some (.pushing t)) θ

end State

open State in
/-- One step of one thread. -/
inductive Step : State T W → Label T W → State T W → Prop
  -- `submit`
  | call {s : State T W} {θ : Thread W} (t : T) (h : s.Calls none θ) :
      Step s (.call θ t) (s.setCall (some (.locking t)) θ)
  | lockCall {s : State T W} {θ : Thread W} {t : T} (h : s.Calls (some (.locking t)) θ)
      (hfree : s.MutexFree) : Step s (.lockCall θ) (s.setCall (some (.pushing t)) θ)
  | push {s : State T W} {θ : Thread W} {t : T} (h : s.Calls (some (.pushing t)) θ) :
      Step s (.push θ t) { s.setCall (some .notifying) θ with tasks := s.tasks ++ [t] }
  | notifyOne {s : State T W} {θ : Thread W} {w : Fin W} (h : s.Calls (some .notifying) θ)
      (hw : s.workers w = .asleep) :
      Step s (.notifyOne θ (some w)) ((s.setCall none θ).setWorker w .locking)
  | notifyNobody {s : State T W} {θ : Thread W} (h : s.Calls (some .notifying) θ)
      (hnone : ∀ w, s.workers w ≠ .asleep) : Step s (.notifyOne θ none) (s.setCall none θ)
  -- `worker_loop_`
  | lock {s : State T W} {w : Fin W} (hw : s.workers w = .locking) (hfree : s.MutexFree) :
      Step s (.lock w) (s.setWorker w .testing)
  | sleep {s : State T W} {w : Fin W} (hw : s.workers w = .testing) (hstop : s.stop = false)
      (htasks : s.tasks = []) : Step s (.sleep w) (s.setWorker w .asleep)
  | wake {s : State T W} {w : Fin W} (hw : s.workers w = .asleep) :
      Step s (.wake w) (s.setWorker w .locking)
  | exit {s : State T W} {w : Fin W} (hw : s.workers w = .testing) (hstop : s.stop = true)
      (htasks : s.tasks = []) : Step s (.exit w) (s.setWorker w .returned)
  | take {s : State T W} {w : Fin W} {t : T} {rest : List T} (hw : s.workers w = .testing)
      (htasks : s.tasks = t :: rest) :
      Step s (.take w t) { s.setWorker w (.running t none) with tasks := rest }
  | finish {s : State T W} {w : Fin W} {t : T} (hw : s.workers w = .running t none) :
      Step s (.finish w t) (s.setWorker w .locking)
  -- the destructor
  | destroy {s : State T W} (h : s.owner = .outside none) :
      Step s .destroy { s with owner := .locking }
  | lockStop {s : State T W} (h : s.owner = .locking) (hfree : s.MutexFree) :
      Step s .lockStop { s with owner := .stopping }
  | setStop {s : State T W} (h : s.owner = .stopping) :
      Step s .setStop { s with owner := .notifying, stop := true }
  | notifyAll {s : State T W} (h : s.owner = .notifying) :
      Step s .notifyAll { s with owner := .joining 0, workers := fun w => (s.workers w).woken }
  | join {s : State T W} {w : Fin W} (h : s.owner = .joining w) (hw : s.workers w = .returned) :
      Step s .join { s with owner := .joining (w + 1) }
  | joined {s : State T W} (h : s.owner = .joining W) :
    Step s .joined { s with owner := .destroyed }

/-! ### The queue -/

/-- The task that a worker has. -/
def Worker.task : Worker T → Option T
  | .running t _ => some t
  | _ => none

/-- What the pool is for. -/
def State.abs (s : State T W) : TaskQueue.State T (Fin W) :=
  ⟨s.tasks, Worker.task ∘ s.workers⟩

def Label.abs : Label T W → Option (TaskQueue.Label T (Fin W))
  | .push _ t => some (.submit t)
  | .take w t => some (.take w t)
  | .finish w t => some (.finish w t)
  | _ => none

theorem Worker.task_setCall (c : Option (Call T)) (p : Worker T) : (p.setCall c).task = p.task := by
  cases p <;> rfl

theorem Worker.task_woken (p : Worker T) : p.woken.task = p.task := by
  cases p <;> rfl

theorem abs_setWorker (s : State T W) (w : Fin W) (p : Worker T) :
    (s.setWorker w p).abs = ⟨s.tasks, Function.update s.abs.serving w p.task⟩ :=
  congrArg (TaskQueue.State.mk s.tasks) (Function.comp_update _ _ _ _)

/-- A worker that changes, but not its task. -/
theorem abs_setWorker_of_task_eq {s : State T W} {w : Fin W} {p : Worker T}
    (h : p.task = (s.workers w).task) : (s.setWorker w p).abs = s.abs := by
  rw [abs_setWorker, h]
  exact congrArg (TaskQueue.State.mk s.tasks) (Function.update_eq_self w _)

/-- Only the thread that calls is somewhere else afterwards. -/
theorem workers_setCall {s : State T W} {w : Fin W} {p : Worker T} (hw : s.workers w = p)
    (hp : ∀ c, p.setCall c = p) (c : Option (Call T)) (θ : Thread W) :
    (s.setCall c θ).workers w = p := by
  cases θ with
  | owner => exact hw
  | worker v =>
    show Function.update s.workers v ((s.workers v).setCall c) w = p
    by_cases hv : w = v
    · rw [hv, Function.update_self, ← hv, hw, hp]
    · rw [Function.update_of_ne hv, hw]

theorem abs_setCall (s : State T W) (c : Option (Call T)) (θ : Thread W) :
    (s.setCall c θ).abs = s.abs := by
  cases θ with
  | owner => rfl
  | worker w => exact abs_setWorker_of_task_eq (Worker.task_setCall c _)

/-- A step does to the tasks what the queue does, or nothing. -/
theorem Step.abs {s : State T W} {l : Label T W} {s' : State T W} (h : Step s l s') :
    match l.abs with
    | some l' => TaskQueue.Step s.abs l' s'.abs
    | none => s'.abs = s.abs := by
  cases h with
  | call t hcall => exact abs_setCall _ _ _
  | lockCall hcall hfree => exact abs_setCall _ _ _
  | @push θ t hcall =>
    -- the queue gets the task, and nobody serves another one
    have hserving := congrArg TaskQueue.State.serving (abs_setCall s (some .notifying) θ)
    have habs : ({ s.setCall (some .notifying) θ with tasks := s.tasks ++ [t] } : State T W).abs =
        { s.abs with tasks := s.abs.tasks ++ [t] } :=
      congrArg (TaskQueue.State.mk (s.tasks ++ [t])) hserving
    show TaskQueue.Step _ (.submit t) _
    rw [habs]
    exact .submit t
  | @notifyOne θ w hcall hw =>
    refine (abs_setWorker_of_task_eq ?_).trans (abs_setCall _ _ _)
    rw [workers_setCall hw (fun _ => rfl)]
    rfl
  | notifyNobody hcall hnone => exact abs_setCall _ _ _
  | lock hw hfree => exact abs_setWorker_of_task_eq (by rw [hw]; rfl)
  | sleep hw hstop htasks => exact abs_setWorker_of_task_eq (by rw [hw]; rfl)
  | wake hw => exact abs_setWorker_of_task_eq (by rw [hw]; rfl)
  | exit hw hstop htasks => exact abs_setWorker_of_task_eq (by rw [hw]; rfl)
  | @take w t rest hw htasks =>
    -- the task leaves the queue for its worker
    have hserving := congrArg TaskQueue.State.serving (abs_setWorker s w (.running t none))
    have habs : ({ s.setWorker w (.running t none) with tasks := rest } : State T W).abs =
        ⟨rest, Function.update s.abs.serving w (some t)⟩ :=
      congrArg (TaskQueue.State.mk rest) hserving
    show TaskQueue.Step _ (.take w t) _
    rw [habs]
    refine .take ?_ htasks
    show (s.workers w).task = none
    rw [hw]
    rfl
  | @finish w t hw =>
    show TaskQueue.Step _ (.finish w t) _
    rw [abs_setWorker]
    refine .finish ?_
    show (s.workers w).task = some t
    rw [hw]
    rfl
  | destroy h => rfl
  | lockStop h hfree => rfl
  | setStop h => rfl
  | notifyAll h => exact congrArg (TaskQueue.State.mk s.tasks) (funext fun w => Worker.task_woken _)
  | join h hw => rfl
  | joined h => rfl

/-- **The pool is a queue of tasks**: what its steps do to the tasks is a run of the queue. -/
theorem run_taskQueue {ls : List (Label T W)} {s s' : State T W} (h : Run Step s ls s') :
    Run TaskQueue.Step s.abs (ls.filterMap Label.abs) s'.abs := by
  refine h.refine (I := fun _ => True) State.abs Label.abs (fun _ _ _ _ _ => trivial) ?_ ?_ trivial
  · intro s l s' l' _ hst hl
    have habs := hst.abs
    rwa [hl] at habs
  · intro s l s' _ hst hl
    have habs := hst.abs
    rwa [hl] at habs

/-! ### No wake-up is lost -/

/-- A sum over the owner and the workers. -/
def State.weigh (s : State T W) (o : Owner T → ℕ) (f : Worker T → ℕ) : ℕ :=
  o s.owner + ∑ w, f (s.workers w)

theorem weigh_setWorker (s : State T W) (o : Owner T → ℕ) (f : Worker T → ℕ) (w : Fin W)
    (p : Worker T) : (s.setWorker w p).weigh o f + f (s.workers w) = s.weigh o f + f p := by
  unfold State.weigh
  rw [add_assoc, add_assoc]
  exact congrArg (o s.owner + ·) (TaskQueue.sum_update_add f s.workers w p)

/-- A thread that goes on in `submit`, where `g` is what its call weighs. -/
theorem weigh_setCall {s : State T W} {o : Owner T → ℕ} {f : Worker T → ℕ} {g : Option (Call T) → ℕ}
    {k : ℕ} (ho : ∀ c, o (.outside c) = g c) (hf : ∀ t c, f (.running t c) = k + g c)
    {c d : Option (Call T)} {θ : Thread W} (h : s.Calls c θ) :
    (s.setCall d θ).weigh o f + g c = s.weigh o f + g d := by
  cases θ with
  | owner =>
    have howner : s.owner = .outside c := h
    unfold State.weigh
    rw [howner, ho]
    show o (.outside d) + _ + g c = _
    rw [ho]
    show g d + ∑ w, f (s.workers w) + g c = _
    omega
  | worker w =>
    obtain ⟨t, ht⟩ := h
    have hset := weigh_setWorker s o f w ((s.workers w).setCall d)
    rw [ht] at hset
    show State.weigh (s.setWorker w ((s.workers w).setCall d)) o f + g c = _
    rw [ht]
    have h₁ := hf t c
    have h₂ : f ((Worker.running t c).setCall d) = k + g d := hf t d
    omega

/-- Calls of `notify_one` that are under way. -/
def Call.notifications : Option (Call T) → ℕ
  | some .notifying => 1
  | _ => 0

def Owner.notifications : Owner T → ℕ
  | .outside c => Call.notifications c
  | _ => 0

def Worker.notifications : Worker T → ℕ
  | .running _ c => Call.notifications c
  | _ => 0

/-- On the way to the tasks. -/
def Worker.looking : Worker T → ℕ
  | .locking => 1
  | .testing => 1
  | _ => 0

namespace State

/-- The calls of `notify_one` that are under way. -/
def notifications (s : State T W) : ℕ :=
  s.weigh Owner.notifications Worker.notifications

/-- The workers that are on the way to the tasks. -/
def looking (s : State T W) : ℕ :=
  s.weigh (fun _ => 0) Worker.looking

/-- **Nobody sleeps on a task** that no other worker, nor a notification, is on the way to. -/
def Awake (s : State T W) : Prop :=
  (∃ w, s.workers w = .asleep) → s.tasks.length ≤ s.notifications + s.looking

end State

theorem notifications_setCall {s : State T W} {c d : Option (Call T)} {θ : Thread W}
    (h : s.Calls c θ) : (s.setCall d θ).notifications + Call.notifications c =
      s.notifications + Call.notifications d :=
  weigh_setCall (k := 0) (fun _ => rfl) (fun _ _ => (Nat.zero_add _).symm) h

theorem looking_setCall {s : State T W} {c d : Option (Call T)} {θ : Thread W}
    (h : s.Calls c θ) : (s.setCall d θ).looking = s.looking :=
  weigh_setCall (o := fun _ => 0) (f := Worker.looking) (g := fun _ => 0) (k := 0) (fun _ => rfl)
    (fun _ _ => rfl) h

/-- A worker that sleeps after another one's step slept before. -/
theorem exists_asleep_of_setWorker {s : State T W} {w : Fin W} {p : Worker T} (hp : p ≠ .asleep)
    (h : ∃ v, (s.setWorker w p).workers v = .asleep) : ∃ v, s.workers v = .asleep := by
  obtain ⟨v, hv⟩ := h
  have hupdate : Function.update s.workers w p v = .asleep := hv
  by_cases hvw : v = w
  · rw [hvw, Function.update_self] at hupdate
    exact absurd hupdate hp
  · rw [Function.update_of_ne hvw] at hupdate
    exact ⟨v, hupdate⟩

theorem exists_asleep_of_setCall {s : State T W} {c : Option (Call T)} {θ : Thread W}
    (h : ∃ v, (s.setCall c θ).workers v = .asleep) : ∃ v, s.workers v = .asleep := by
  cases θ with
  | owner => exact h
  | worker w =>
    by_cases hw : s.workers w = .asleep
    · exact ⟨w, hw⟩
    · refine exists_asleep_of_setWorker (fun hp => hw ?_) h
      cases hcase : s.workers w <;> rw [hcase] at hp <;> first | rfl | cases hp

@[simp] theorem tasks_setWorker (s : State T W) (w : Fin W) (p : Worker T) :
    (s.setWorker w p).tasks = s.tasks := rfl

@[simp] theorem tasks_setCall (s : State T W) (c : Option (Call T)) (θ : Thread W) :
    (s.setCall c θ).tasks = s.tasks := by
  cases θ <;> rfl

/-- What a worker's step changes of the two counts. -/
theorem counts_setWorker {s : State T W} {w : Fin W} {p : Worker T} (hw : s.workers w = p)
    (p' : Worker T) :
    (s.setWorker w p').notifications + p.notifications = s.notifications + p'.notifications ∧
      (s.setWorker w p').looking + p.looking = s.looking + p'.looking := by
  rw [← hw]
  exact ⟨weigh_setWorker s _ _ w p', weigh_setWorker s _ _ w p'⟩

theorem State.Awake.of_setCall {s : State T W} (hs : s.Awake) {c d : Option (Call T)} {θ : Thread W}
    (h : s.Calls c θ) (hc : Call.notifications c = 0) : (s.setCall d θ).Awake := by
  intro hasleep
  have hbound := hs (exists_asleep_of_setCall hasleep)
  have hn := notifications_setCall (d := d) h
  rw [tasks_setCall, looking_setCall h]
  omega

/-- A step of the owner that notifies nobody. -/
theorem State.Awake.of_owner {s : State T W} (hs : s.Awake) {o : Owner T} {b : Bool}
    (h : s.owner.notifications = 0) : State.Awake { s with owner := o, stop := b } := by
  intro hasleep
  have hbound := hs hasleep
  show s.tasks.length ≤ (o.notifications + ∑ w, (s.workers w).notifications) + s.looking
  unfold State.notifications State.weigh at hbound
  omega

theorem State.Awake.step {s : State T W} {l : Label T W} {s' : State T W} (hs : s.Awake)
    (h : Step s l s') : s'.Awake := by
  cases h with
  | call t hcall => exact hs.of_setCall hcall rfl
  | lockCall hcall hfree => exact hs.of_setCall hcall rfl
  | @push θ t hcall =>
    intro hasleep
    have hbound := hs (exists_asleep_of_setCall hasleep)
    have hn : (s.setCall (some .notifying) θ).notifications + 0 = s.notifications + 1 :=
      notifications_setCall hcall
    have hlook := looking_setCall (d := some .notifying) hcall
    show (s.tasks ++ [t]).length ≤ (s.setCall (some .notifying) θ).notifications +
      (s.setCall (some .notifying) θ).looking
    rw [List.length_append, List.length_singleton]
    omega
  | @notifyOne θ w hcall hw =>
    intro _
    -- one notification less, and one worker more
    have hbound := hs ⟨w, hw⟩
    have hn : (s.setCall none θ).notifications + 1 = s.notifications + 0 :=
      notifications_setCall hcall
    have hlook := looking_setCall (d := none) hcall
    have hcounts := counts_setWorker (workers_setCall hw (fun _ => rfl) none θ) .locking
    simp only [Worker.notifications, Worker.looking] at hcounts
    rw [tasks_setWorker, tasks_setCall]
    omega
  | notifyNobody hcall hnone =>
    intro hasleep
    obtain ⟨w, hw⟩ := exists_asleep_of_setCall hasleep
    exact absurd hw (hnone w)
  | @lock w hw hfree =>
    intro hasleep
    have hbound := hs (exists_asleep_of_setWorker (p := .testing) nofun hasleep)
    have hcounts := counts_setWorker hw .testing
    simp only [Worker.notifications, Worker.looking] at hcounts
    rw [tasks_setWorker]
    omega
  | sleep hw hstop htasks =>
    intro _
    rw [tasks_setWorker, htasks]
    exact Nat.zero_le _
  | @wake w hw =>
    intro _
    have hbound := hs ⟨w, hw⟩
    have hcounts := counts_setWorker hw .locking
    simp only [Worker.notifications, Worker.looking] at hcounts
    rw [tasks_setWorker]
    omega
  | exit hw hstop htasks =>
    intro _
    rw [tasks_setWorker, htasks]
    exact Nat.zero_le _
  | @take w t rest hw htasks =>
    intro hasleep
    -- one task less, and one worker less
    have hbound := hs (exists_asleep_of_setWorker (p := .running t none) nofun hasleep)
    have hcounts := counts_setWorker hw (.running t none)
    simp only [Worker.notifications, Call.notifications, Worker.looking] at hcounts
    rw [htasks, List.length_cons] at hbound
    show rest.length ≤ (s.setWorker w (.running t none)).notifications +
      (s.setWorker w (.running t none)).looking
    omega
  | @finish w t hw =>
    intro hasleep
    have hbound := hs (exists_asleep_of_setWorker (p := .locking) nofun hasleep)
    have hcounts := counts_setWorker hw .locking
    simp only [Worker.notifications, Call.notifications, Worker.looking] at hcounts
    rw [tasks_setWorker]
    omega
  | destroy h => exact hs.of_owner (by rw [h]; rfl)
  | lockStop h hfree => exact hs.of_owner (by rw [h]; rfl)
  | setStop h => exact hs.of_owner (by rw [h]; rfl)
  | notifyAll h =>
    rintro ⟨w, hw⟩
    -- all have been woken
    have hwoken : (s.workers w).woken = .asleep := hw
    cases hcase : s.workers w <;> rw [hcase] at hwoken <;> cases hwoken
  | join h hw => exact hs.of_owner (by rw [h]; rfl)
  | joined h => exact hs.of_owner (by rw [h]; rfl)

theorem awake_initial : (State.initial W : State T W).Awake := by
  rintro ⟨w, hw⟩
  cases hw

/-! ### The destructor -/

/-- `stop_` is set. -/
def Owner.Stopped : Owner T → Prop
  | .notifying => True
  | .joining _ => True
  | .destroyed => True
  | _ => False

/-- How many workers have been joined, of `W`. -/
def Owner.joined (W : ℕ) : Owner T → ℕ
  | .joining k => k
  | .destroyed => W
  | _ => 0

/-- What holds at any time. -/
structure Inv (s : State T W) : Prop where
  stop_iff : s.stop = true ↔ s.owner.Stopped
  awake : s.stop = true → s.owner ≠ .notifying → ∀ w, s.workers w ≠ .asleep
  returned : ∀ w, s.workers w = .returned → s.stop = true
  joined_le : s.owner.joined W ≤ W
  joined : ∀ w, w.val < s.owner.joined W → s.workers w = .returned
  /-- somebody is there to take the tasks -/
  attended : s.tasks ≠ [] → ∃ w, s.workers w ≠ .returned

theorem inv_initial : Inv (State.initial W : State T W) where
  stop_iff := ⟨nofun, nofun⟩
  awake := nofun
  returned := nofun
  joined_le := Nat.zero_le W
  joined := fun _ hw => absurd hw (Nat.not_lt_zero _)
  attended := fun h => absurd rfl h

theorem workers_setWorker (s : State T W) (w v : Fin W) (p : Worker T) :
    (s.setWorker w p).workers v = if v = w then p else s.workers v :=
  Function.update_apply _ _ _ _

/-- A worker's own step. It sleeps only before `stop_` is set, and returns only afterwards and with
no task left. -/
theorem Inv.of_setWorker {s : State T W} (hs : Inv s) {w : Fin W} {p : Worker T} {tasks : List T}
    (hw : s.workers w ≠ .returned) (hasleep : p = .asleep → s.stop = false)
    (hreturned : p = .returned → s.stop = true ∧ tasks = []) :
    Inv { s.setWorker w p with tasks := tasks } where
  stop_iff := hs.stop_iff
  awake := by
    intro hstop hnotifying v
    show (s.setWorker w p).workers v ≠ .asleep
    rw [workers_setWorker]
    split
    · exact fun hp => Bool.false_ne_true ((hasleep hp).symm.trans hstop)
    · exact hs.awake hstop hnotifying v
  returned := by
    intro v
    show (s.setWorker w p).workers v = .returned → _
    rw [workers_setWorker]
    split
    · exact fun hp => (hreturned hp).1
    · exact hs.returned v
  joined_le := hs.joined_le
  joined := by
    intro v hv
    have hjoined := hs.joined v hv
    show (s.setWorker w p).workers v = .returned
    rw [workers_setWorker, if_neg, hjoined]
    rintro rfl
    exact hw hjoined
  attended := by
    intro htasks
    refine ⟨w, fun hreturn => htasks ?_⟩
    have hp : (s.setWorker w p).workers w = .returned := hreturn
    rw [workers_setWorker, if_pos rfl] at hp
    exact (hreturned hp).2

/-- A thread that goes on in `submit`. -/
theorem Inv.of_setCall {s : State T W} (hs : Inv s) (hW : 0 < W) {c d : Option (Call T)}
    {θ : Thread W} (h : s.Calls c θ) (tasks : List T) :
    Inv { s.setCall d θ with tasks := tasks } := by
  cases θ with
  | owner =>
    have howner : s.owner = .outside c := h
    have hrunning : ¬ s.stop = true := by
      rw [hs.stop_iff, howner]
      exact id
    refine ⟨⟨fun hstop => absurd hstop hrunning, nofun⟩, fun hstop => absurd hstop hrunning,
      hs.returned, Nat.zero_le W, fun w hw => absurd hw (Nat.not_lt_zero _), fun _ => ?_⟩
    exact ⟨⟨0, hW⟩, fun hreturned => hrunning (hs.returned _ hreturned)⟩
  | worker w =>
    obtain ⟨t, ht⟩ := h
    refine hs.of_setWorker (by rw [ht]; exact nofun) ?_ ?_ <;> rw [ht] <;> exact nofun

/-- A step of the owner. -/
theorem Inv.of_owner {s : State T W} (hs : Inv s) {o : Owner T} {b : Bool}
    (hstop : b = true ↔ o.Stopped) (hkeep : s.stop = true → b = true)
    (hawake : b = true → o ≠ .notifying → ∀ w, s.workers w ≠ .asleep) (hle : o.joined W ≤ W)
    (hjoined : ∀ w, w.val < o.joined W → s.workers w = .returned) :
    Inv { s with owner := o, stop := b } :=
  ⟨hstop, hawake, fun w hw => hkeep (hs.returned w hw), hle, hjoined, hs.attended⟩

theorem Worker.woken_ne_asleep (p : Worker T) : p.woken ≠ .asleep := by
  cases p <;> nofun

theorem Worker.woken_eq_returned {p : Worker T} : p.woken = .returned ↔ p = .returned := by
  cases p <;> first | exact Iff.rfl | exact ⟨nofun, nofun⟩

theorem Inv.step {s : State T W} {l : Label T W} {s' : State T W} (hs : Inv s) (hW : 0 < W)
    (h : Step s l s') : Inv s' := by
  cases h with
  | call t hcall => exact hs.of_setCall hW hcall _
  | lockCall hcall hfree => exact hs.of_setCall hW hcall _
  | push hcall => exact hs.of_setCall hW hcall _
  | @notifyOne θ w hcall hw =>
    -- the call ends, and the sleeper is awake
    have hcalled : Inv (s.setCall none θ) := hs.of_setCall hW hcall _
    have hsleeper := workers_setCall hw (fun _ => rfl) none θ
    exact hcalled.of_setWorker (by rw [hsleeper]; exact nofun) nofun nofun
  | notifyNobody hcall hnone => exact hs.of_setCall hW hcall _
  | lock hw hfree => exact hs.of_setWorker (by rw [hw]; exact nofun) nofun nofun
  | sleep hw hstop htasks =>
    exact hs.of_setWorker (by rw [hw]; exact nofun) (fun _ => hstop) nofun
  | wake hw => exact hs.of_setWorker (by rw [hw]; exact nofun) nofun nofun
  | exit hw hstop htasks =>
    exact hs.of_setWorker (by rw [hw]; exact nofun) nofun (fun _ => ⟨hstop, htasks⟩)
  | take hw htasks => exact hs.of_setWorker (by rw [hw]; exact nofun) nofun nofun
  | finish hw => exact hs.of_setWorker (by rw [hw]; exact nofun) nofun nofun
  | destroy h =>
    -- `stop_` is set two steps later, so that nothing is said of it yet
    have hrunning : ¬ s.stop = true := by
      rw [hs.stop_iff, h]
      exact id
    exact hs.of_owner ⟨hrunning, nofun⟩ id (fun hstop => absurd hstop hrunning) (Nat.zero_le W)
      fun w hw => absurd hw (Nat.not_lt_zero _)
  | lockStop h hfree =>
    have hrunning : ¬ s.stop = true := by
      rw [hs.stop_iff, h]
      exact id
    exact hs.of_owner ⟨hrunning, nofun⟩ id (fun hstop => absurd hstop hrunning) (Nat.zero_le W)
      fun w hw => absurd hw (Nat.not_lt_zero _)
  | setStop h =>
    exact hs.of_owner ⟨fun _ => trivial, fun _ => rfl⟩ (fun _ => rfl)
      (fun _ hne => absurd rfl hne) (Nat.zero_le W) fun w hw => absurd hw (Nat.not_lt_zero _)
  | notifyAll h =>
    -- from here on nobody sleeps
    have hstop : s.stop = true := by
      rw [hs.stop_iff, h]
      trivial
    refine ⟨⟨fun _ => trivial, fun _ => hstop⟩, fun _ _ w => Worker.woken_ne_asleep _,
      fun w _ => hstop, Nat.zero_le W, fun w hw => absurd hw (Nat.not_lt_zero _), fun htasks => ?_⟩
    obtain ⟨w, hw⟩ := hs.attended htasks
    exact ⟨w, fun hreturned => hw (Worker.woken_eq_returned.mp hreturned)⟩
  | @join w h hw =>
    -- the threads joined so far have returned, and so has this one
    have hstop : s.stop = true := by
      rw [hs.stop_iff, h]
      trivial
    refine hs.of_owner ⟨fun _ => trivial, fun _ => hstop⟩ id ?_ w.isLt ?_
    · exact fun _ _ => hs.awake hstop (by rw [h]; exact nofun)
    · intro v hv
      rcases Nat.lt_succ_iff_lt_or_eq.mp hv with hlt | heq
      · exact hs.joined v (by rw [h]; exact hlt)
      · rwa [Fin.ext heq]
  | joined h =>
    have hstop : s.stop = true := by
      rw [hs.stop_iff, h]
      trivial
    refine hs.of_owner ⟨fun _ => trivial, fun _ => hstop⟩ id ?_ le_rfl ?_
    · exact fun _ _ => hs.awake hstop (by rw [h]; exact nofun)
    · exact fun v hv => hs.joined v (by rw [h]; exact hv)

/-! ### Work comes to an end -/

/-- Nobody decides on this step: it is not a new call, nor the destructor, nor a worker that wakes
without a reason. -/
def Label.Internal : Label T W → Prop
  | .call _ _ => False
  | .destroy => False
  | .wake _ => False
  | _ => True

/-- The steps that the pool takes by itself. -/
abbrev Internal : State T W → Label T W → State T W → Prop :=
  Guarded Step fun _ l => l.Internal

theorem internal_of {s : State T W} {l : Label T W} {s' : State T W} (h : Step s l s')
    (hl : l.Internal) : Internal s l s' :=
  ⟨hl, h⟩

/-- What a call in `submit` has still to do: a task weighs 3. -/
def Call.weight : Option (Call T) → ℕ
  | none => 0
  | some (.locking _) => 8
  | some (.pushing _) => 7
  | some .notifying => 3

def Worker.weight : Worker T → ℕ
  | .locking => 2
  | .testing => 1
  | .asleep => 0
  | .running _ c => 3 + Call.weight c
  | .returned => 0

/-- `notify_all` pays for all the workers. -/
def Owner.weight (W : ℕ) : Owner T → ℕ
  | .outside c => Call.weight c
  | .locking => 3 * W + 4
  | .stopping => 3 * W + 3
  | .notifying => 3 * W + 2
  | .joining k => W - k + 1
  | .destroyed => 0

/-- A bound on the steps that the pool can take by itself. -/
def State.weight (s : State T W) : ℕ :=
  s.weigh (Owner.weight W) Worker.weight + 3 * s.tasks.length

theorem weight_setCall {s : State T W} {c d : Option (Call T)} {θ : Thread W} (h : s.Calls c θ) :
    (s.setCall d θ).weigh (Owner.weight W) Worker.weight + Call.weight c =
      s.weigh (Owner.weight W) Worker.weight + Call.weight d :=
  weigh_setCall (k := 3) (fun _ => rfl) (fun _ _ => rfl) h

theorem weight_setWorker {s : State T W} {w : Fin W} {p : Worker T} (hw : s.workers w = p)
    (p' : Worker T) :
    (s.setWorker w p').weigh (Owner.weight W) Worker.weight + p.weight =
      s.weigh (Owner.weight W) Worker.weight + p'.weight := by
  rw [← hw]
  exact weigh_setWorker s _ _ w p'

/-- Whoever is woken weighs 2 more. -/
theorem sum_weight_woken (s : State T W) :
    ∑ w, (s.workers w).woken.weight ≤ (∑ w, (s.workers w).weight) + 2 * W := by
  calc ∑ w, (s.workers w).woken.weight ≤ ∑ w, ((s.workers w).weight + 2) := by
        refine Finset.sum_le_sum fun w _ => ?_
        cases s.workers w <;> simp [Worker.woken, Worker.weight]
    _ = (∑ w, (s.workers w).weight) + 2 * W := by
        rw [Finset.sum_add_distrib, Finset.sum_const, Finset.card_univ, Fintype.card_fin, mul_comm]
        rfl

/-- **Every step of the pool itself** takes something off. -/
theorem weight_lt {s : State T W} {l : Label T W} {s' : State T W} (h : Internal s l s') :
    s'.weight < s.weight := by
  obtain ⟨hl, hst⟩ := h
  unfold State.weight
  cases hst with
  -- a new call is not a step of the pool itself, nor are `destroy` and `wake`
  | call t hcall => cases hl
  | @lockCall θ t hcall hfree =>
    have hset := weight_setCall (d := some (.pushing t)) hcall
    simp only [Call.weight] at hset
    rw [tasks_setCall]
    omega
  | @push θ t hcall =>
    -- the call weighs 4 less and the task that it leaves weighs 3
    have hset := weight_setCall (d := some .notifying) hcall
    simp only [Call.weight] at hset
    show (s.setCall _ θ).weigh _ _ + 3 * (s.tasks ++ [t]).length < _
    rw [List.length_append, List.length_singleton]
    omega
  | @notifyOne θ w hcall hw =>
    -- the notification weighs 3, the worker that it wakes 2
    have hset := weight_setCall (d := none) hcall
    have hset' := weight_setWorker (workers_setCall hw (fun _ => rfl) none θ) .locking
    simp only [Call.weight, Worker.weight] at hset hset'
    rw [tasks_setWorker, tasks_setCall]
    omega
  | notifyNobody hcall hnone =>
    have hset := weight_setCall (d := none) hcall
    simp only [Call.weight] at hset
    rw [tasks_setCall]
    omega
  | lock hw hfree =>
    have hset := weight_setWorker hw .testing
    simp only [Worker.weight] at hset
    rw [tasks_setWorker]
    omega
  | sleep hw hstop htasks =>
    have hset := weight_setWorker hw .asleep
    simp only [Worker.weight] at hset
    rw [tasks_setWorker]
    omega
  | wake hw => cases hl
  | exit hw hstop htasks =>
    have hset := weight_setWorker hw .returned
    simp only [Worker.weight] at hset
    rw [tasks_setWorker]
    omega
  | @take w t rest hw htasks =>
    -- the worker weighs 2 more, with a task in hand, and the queue 3 less
    have hset := weight_setWorker hw (.running t none)
    simp only [Worker.weight, Call.weight] at hset
    rw [htasks, List.length_cons]
    show (s.setWorker w (.running t none)).weigh _ _ + 3 * rest.length < _
    omega
  | finish hw =>
    -- back to the mutex: `locking` weighs 2, a task in hand 3
    have hset := weight_setWorker hw .locking
    simp only [Worker.weight, Call.weight] at hset
    rw [tasks_setWorker]
    omega
  | destroy h => cases hl
  | lockStop h hfree =>
    unfold State.weigh
    rw [h]
    simp only [Owner.weight]
    omega
  | setStop h =>
    unfold State.weigh
    rw [h]
    simp only [Owner.weight]
    omega
  | notifyAll h =>
    -- up to `W` workers weigh 2 more, and `W` joins are to come
    have hwoken := sum_weight_woken s
    unfold State.weigh
    rw [h]
    simp only [Owner.weight]
    omega
  | @join w h hw =>
    have hw := w.isLt
    unfold State.weigh
    rw [h]
    simp only [Owner.weight]
    omega
  | joined h =>
    unfold State.weigh
    rw [h]
    simp only [Owner.weight]
    omega

/-- The pool has nothing to do. -/
structure Quiescent (s : State T W) : Prop where
  tasks : s.tasks = []
  idle : ∀ w, (s.workers w).task = none
  workers : s.owner = .outside none ∧ (∀ w, s.workers w = .asleep) ∨
    s.owner = .destroyed ∧ ∀ w, s.workers w = .returned

/-- **Work never stands still**: where the pool cannot take a step by itself, there is none left. -/
theorem quiescent_of_stuck {s : State T W} (hW : 0 < W) (hI : Inv s) (hA : s.Awake)
    (h : Stuck Internal s) : Quiescent s := by
  have hstep : ∀ {l : Label T W} {s' : State T W}, Step s l s' → ¬ l.Internal :=
    fun hst hl => h _ _ ⟨hl, hst⟩
  -- nobody holds the mutex
  have htesting : ∀ w, s.workers w ≠ .testing := by
    intro w hw
    cases htasks : s.tasks with
    | cons t rest => exact hstep (.take hw htasks) trivial
    | nil =>
      cases hstop : s.stop with
      | false => exact hstep (.sleep hw hstop htasks) trivial
      | true => exact hstep (.exit hw hstop htasks) trivial
  have hfree : s.MutexFree :=
    ⟨fun ho => hstep (.setStop ho) trivial, htesting, fun θ t hcall => hstep (.push hcall) trivial⟩
  -- so that nobody waits for it, and nobody is about to notify
  have hcall : ∀ θ c, s.Calls c θ → c = none := by
    rintro θ (_ | (t | t | _)) hc
    · rfl
    · exact (hstep (.lockCall hc hfree) trivial).elim
    · exact (hstep (.push hc) trivial).elim
    · by_cases hasleep : ∃ w, s.workers w = .asleep
      · obtain ⟨w, hw⟩ := hasleep
        exact (hstep (.notifyOne hc hw) trivial).elim
      · exact (hstep (.notifyNobody hc (not_exists.mp hasleep)) trivial).elim
  have hworker : ∀ w, s.workers w = .asleep ∨ s.workers w = .returned := by
    intro w
    cases hw : s.workers w with
    | locking => exact (hstep (.lock hw hfree) trivial).elim
    | testing => exact absurd hw (htesting w)
    | asleep => exact Or.inl rfl
    | running t c =>
      obtain rfl := hcall (.worker w) c ⟨t, hw⟩
      exact (hstep (.finish hw) trivial).elim
    | returned => exact Or.inr rfl
  have hidle : ∀ w, (s.workers w).task = none := by
    intro w
    rcases hworker w with hw | hw <;> rw [hw] <;> rfl
  cases ho : s.owner with
  | outside c =>
    obtain rfl := hcall .owner c ho
    have hrunning : ¬ s.stop = true := by
      rw [hI.stop_iff, ho]
      exact id
    have hasleep : ∀ w, s.workers w = .asleep := fun w =>
      (hworker w).resolve_right fun hw => hrunning (hI.returned w hw)
    have hnotifications : s.notifications = 0 := by
      unfold State.notifications State.weigh
      rw [ho, Finset.sum_eq_zero fun w _ => by rw [hasleep w]; rfl]
      rfl
    have hlooking : s.looking = 0 := by
      unfold State.looking State.weigh
      rw [Finset.sum_eq_zero fun w _ => by rw [hasleep w]; rfl]
      rfl
    have hbound := hA ⟨⟨0, hW⟩, hasleep _⟩
    rw [hnotifications, hlooking] at hbound
    exact ⟨List.length_eq_zero_iff.mp (Nat.le_zero.mp hbound), hidle, Or.inl ⟨ho, hasleep⟩⟩
  | locking => exact (hstep (.lockStop ho hfree) trivial).elim
  | stopping => exact (hstep (.setStop ho) trivial).elim
  | notifying => exact (hstep (.notifyAll ho) trivial).elim
  | joining k =>
    have hstop : s.stop = true := by
      rw [hI.stop_iff, ho]
      trivial
    have hk : k ≤ W := by
      have hle := hI.joined_le
      rwa [ho] at hle
    rcases hk.lt_or_eq with hlt | rfl
    · -- the next one to be joined does not sleep, and has returned
      have hawake := hI.awake hstop (by rw [ho]; exact nofun) ⟨k, hlt⟩
      have hreturned := (hworker ⟨k, hlt⟩).resolve_left hawake
      exact (hstep (.join (w := ⟨k, hlt⟩) ho hreturned) trivial).elim
    · exact (hstep (.joined ho) trivial).elim
  | destroyed =>
    have hreturned : ∀ w, s.workers w = .returned := fun w => hI.joined w (by
      rw [ho]
      exact w.isLt)
    refine ⟨?_, hidle, Or.inr ⟨ho, hreturned⟩⟩
    by_contra hne
    obtain ⟨w, hw⟩ := hI.attended hne
    exact hw (hreturned w)

/-! ### What a run comes to -/

/-- The constructor starts at least one worker. -/
theorem numWorkers_pos (n : ℕ) : 0 < numWorkers n := by
  unfold numWorkers
  split <;> omega

section Runs

variable {n : ℕ} {ls : List (Label T (numWorkers n))} {s : State T (numWorkers n)}

theorem inv_of_run (h : Run Step (.initial _) ls s) : Inv s :=
  h.invariant (fun _ _ _ hs hst => hs.step (numWorkers_pos n) hst) inv_initial

/-- The tasks submitted, taken and finished in a run, each in order. -/
abbrev submitted (ls : List (Label T W)) : List T :=
  TaskQueue.submitted (ls.filterMap Label.abs)

abbrev taken (ls : List (Label T W)) : List T :=
  TaskQueue.taken (ls.filterMap Label.abs)

abbrev finished (ls : List (Label T W)) : List T :=
  TaskQueue.finished (ls.filterMap Label.abs)

/-- **The destructor drains the queue.** In every run the tasks are taken in the order in which they
were submitted, each once, and when the destructor has returned all of them are finished, those
that tasks submitted after it had set `stop_` as well. No worker is left. -/
theorem destroyed_drained (h : Run Step (.initial (numWorkers n)) ls s) :
    submitted ls = taken ls ++ s.tasks ∧
    (s.owner = .destroyed → taken ls = submitted ls ∧ (finished ls).Perm (submitted ls) ∧
      ∀ w, s.workers w = .returned) := by
  have hI := inv_of_run h
  have hrun := run_taskQueue h
  refine ⟨TaskQueue.fifo hrun, fun hdestroyed => ?_⟩
  have hreturned : ∀ w, s.workers w = .returned := fun w => hI.joined w (by
    rw [hdestroyed]
    exact w.isLt)
  have htasks : s.tasks = [] := by
    by_contra hne
    obtain ⟨w, hw⟩ := hI.attended hne
    exact hw (hreturned w)
  have hidle : ∀ w, s.abs.serving w = none := by
    intro w
    show (s.workers w).task = none
    rw [hreturned w]
    rfl
  obtain ⟨htaken, hfinished⟩ := TaskQueue.finished_perm hrun htasks hidle
  exact ⟨htaken, hfinished, hreturned⟩

/-- The only worker of the smallest pool. -/
def first : Fin (numWorkers 0) :=
  ⟨0, numWorkers_pos 0⟩

theorem eq_first (w : Fin (numWorkers 0)) : w = first :=
  Fin.ext (Nat.lt_one_iff.mp w.isLt)

theorem mutexFree_of {s : State T (numWorkers 0)} (howner : s.owner ≠ .stopping)
    (hcall : ∀ t, s.owner ≠ .outside (some (.pushing t))) (htesting : s.workers first ≠ .testing)
    (hpushing : ∀ t t', s.workers first ≠ .running t (some (.pushing t'))) : s.MutexFree := by
  refine ⟨howner, fun w => eq_first w ▸ htesting, ?_⟩
  rintro (_ | w) t hcalls
  · exact hcall t hcalls
  · obtain ⟨t', ht'⟩ := hcalls
    exact hpushing t' t (eq_first w ▸ ht')

/-- What the owner does to submit two tasks. -/
def twoSubmits : List (Label ℕ (numWorkers 0)) :=
  [.call .owner 1, .lockCall .owner, .push .owner 1, .notifyOne .owner none,
    .call .owner 2, .lockCall .owner, .push .owner 2, .notifyOne .owner none]

/-- The worker has not begun. -/
def twoQueued : State ℕ (numWorkers 0) :=
  { State.initial (numWorkers 0) with tasks := [1, 2] }

theorem run_twoSubmits : Run Step (.initial _) twoSubmits twoQueued := by
  have h₀ : Run Step (.initial (numWorkers 0)) [] (.initial (numWorkers 0) : State ℕ _) := .nil
  have h₁ := h₀.snoc (.call (θ := .owner) 1 rfl)
  have h₂ := h₁.snoc (.lockCall (θ := .owner) (t := 1) rfl (mutexFree_of nofun nofun nofun nofun))
  have h₃ := h₂.snoc (.push (θ := .owner) (t := 1) rfl)
  have h₄ := h₃.snoc (.notifyNobody (θ := .owner) rfl nofun)
  have h₅ := h₄.snoc (.call (θ := .owner) 2 rfl)
  have h₆ := h₅.snoc (.lockCall (θ := .owner) (t := 2) rfl (mutexFree_of nofun nofun nofun nofun))
  have h₇ := h₆.snoc (.push (θ := .owner) (t := 2) rfl)
  exact h₇.snoc (.notifyNobody (θ := .owner) rfl nofun)

/-- Two tasks, and `stop_` is set before the first is taken. -/
theorem destroyed_drained_two : ∃ (ls : List (Label ℕ (numWorkers 0)))
    (s : State ℕ (numWorkers 0)), Run Step (.initial _) ls s ∧ s.owner = .destroyed ∧
      submitted ls = [1, 2] ∧ taken ls = [1, 2] ∧ (finished ls).Perm [1, 2] ∧
      ∀ w, s.workers w = .returned := by
  have h₁ := run_twoSubmits.snoc (.destroy rfl)
  have h₂ := h₁.snoc (.lockStop rfl (mutexFree_of nofun nofun nofun nofun))
  have h₃ := h₂.snoc (.setStop rfl)
  have h₄ := h₃.snoc (.lock (w := first) rfl (mutexFree_of nofun nofun nofun nofun))
  have h₅ := h₄.snoc (.take (w := first) rfl rfl)
  have h₆ := h₅.snoc (.finish (w := first) rfl)
  have h₇ := h₆.snoc (.notifyAll rfl)
  have h₈ := h₇.snoc (.lock (w := first) rfl (mutexFree_of nofun nofun nofun nofun))
  have h₉ := h₈.snoc (.take (w := first) rfl rfl)
  have h₁₀ := h₉.snoc (.finish (w := first) rfl)
  have h₁₁ := h₁₀.snoc (.lock (w := first) rfl (mutexFree_of nofun nofun nofun nofun))
  have h₁₂ := h₁₁.snoc (.exit (w := first) rfl rfl rfl)
  have h₁₃ := h₁₂.snoc (.join (w := first) rfl rfl)
  have h₁₄ := h₁₃.snoc (.joined rfl)
  obtain ⟨htaken, hfinished, hreturned⟩ := (destroyed_drained h₁₄).2 rfl
  exact ⟨_, _, h₁₄, rfl, rfl, htaken, hfinished, hreturned⟩

theorem awake_of_run (h : Run Step (.initial _) ls s) : s.Awake :=
  h.invariant (fun _ _ _ hs hst => hs.step hst) awake_initial

/-- **No wake-up is lost.** In every run, as long as a worker sleeps, each task in the queue has a
worker on the way to it, or a notification. -/
theorem length_tasks_le (h : Run Step (.initial (numWorkers n)) ls s) {w : Fin (numWorkers n)}
    (hw : s.workers w = .asleep) : s.tasks.length ≤ s.notifications + s.looking :=
  awake_of_run h ⟨w, hw⟩

/-- The worker sleeps, and the notification is under way. -/
theorem length_tasks_le_one : ∃ (ls : List (Label Unit (numWorkers 0)))
    (s : State Unit (numWorkers 0)), Run Step (.initial _) ls s ∧ s.workers first = .asleep ∧
      s.tasks = [()] ∧ s.tasks.length ≤ s.notifications + s.looking := by
  have h₀ : Run Step (.initial (numWorkers 0)) [] (.initial (numWorkers 0) : State Unit _) := .nil
  have h₁ := h₀.snoc (.lock (w := first) rfl (mutexFree_of nofun nofun nofun nofun))
  have h₂ := h₁.snoc (.sleep (w := first) rfl rfl rfl)
  have h₃ := h₂.snoc (.call (θ := .owner) () rfl)
  have h₄ := h₃.snoc (.lockCall (θ := .owner) (t := ()) rfl (mutexFree_of nofun nofun nofun nofun))
  have h₅ := h₄.snoc (.push (θ := .owner) (t := ()) rfl)
  exact ⟨_, _, h₅, rfl, rfl, length_tasks_le h₅ (w := first) rfl⟩

/-- **Work is always done.** From any state that the pool can be in it takes only so many steps by
itself, however the threads are scheduled, and where it can take no more, all tasks are finished
and the workers sleep, or have returned if the destructor was called. -/
theorem always_finishes (h : Run Step (.initial (numWorkers n)) ls s)
    {ls' : List (Label T (numWorkers n))} {s' : State T (numWorkers n)}
    (h' : Run Internal s ls' s') :
    ls'.length ≤ s.weight ∧
    (Stuck Internal s' → (finished (ls ++ ls')).Perm (submitted (ls ++ ls')) ∧
      (s'.owner = .outside none ∧ (∀ w, s'.workers w = .asleep) ∨
        s'.owner = .destroyed ∧ ∀ w, s'.workers w = .returned)) := by
  have hlength := h'.length_le (I := fun _ => True) (fun _ _ _ _ _ => trivial)
    (fun _ _ _ _ hst => weight_lt hst) trivial
  refine ⟨(Nat.le_add_right _ _).trans hlength, fun hstuck => ?_⟩
  have hrun : Run Step (.initial (numWorkers n)) (ls ++ ls') s' :=
    h.trans (h'.mono fun _ _ _ hst => hst.2)
  have hquiescent := quiescent_of_stuck (numWorkers_pos n) (inv_of_run hrun)
    (awake_of_run hrun) hstuck
  obtain ⟨-, hfinished⟩ :=
    TaskQueue.finished_perm (run_taskQueue hrun) hquiescent.tasks hquiescent.idle
  exact ⟨hfinished, hquiescent.workers⟩

/-- A pool whose owner does nothing, and whose workers sleep. -/
theorem stuck_of_asleep {s : State T W} (howner : s.owner = .outside none)
    (hasleep : ∀ w, s.workers w = .asleep) : Stuck Internal s := by
  have hcall : ∀ θ c, s.Calls (some c) θ → False := by
    rintro (_ | w) c hc
    · cases howner.symm.trans hc
    · obtain ⟨t, ht⟩ := hc
      cases (hasleep w).symm.trans ht
  rintro l s' ⟨hl, hst⟩
  cases hst with
  | lockCall hc hfree => exact hcall _ _ hc
  | push hc => exact hcall _ _ hc
  | notifyOne hc hw => exact hcall _ _ hc
  | notifyNobody hc hnone => exact hcall _ _ hc
  | lock hw hfree => cases (hasleep _).symm.trans hw
  | sleep hw hstop htasks => cases (hasleep _).symm.trans hw
  | exit hw hstop htasks => cases (hasleep _).symm.trans hw
  | take hw htasks => cases (hasleep _).symm.trans hw
  | finish hw => cases (hasleep _).symm.trans hw
  | lockStop h hfree => cases howner.symm.trans h
  | setStop h => cases howner.symm.trans h
  | notifyAll h => cases howner.symm.trans h
  | join h hw => cases howner.symm.trans h
  | joined h => cases howner.symm.trans h
  | _ => exact hl

/-- The worker takes one task after the other, and then it sleeps. -/
theorem run_twoQueued : ∃ (ls : List (Label ℕ (numWorkers 0))) (s : State ℕ (numWorkers 0)),
    Run Internal twoQueued ls s ∧ submitted (twoSubmits ++ ls) = [1, 2] ∧
      s.owner = .outside none ∧ ∀ w, s.workers w = .asleep := by
  have h₀ : Run Internal twoQueued [] twoQueued := .nil
  have h₁ := h₀.snoc (internal_of (.lock (w := first) rfl
    (mutexFree_of nofun nofun nofun nofun)) trivial)
  have h₂ := h₁.snoc (internal_of (.take (w := first) rfl rfl) trivial)
  have h₃ := h₂.snoc (internal_of (.finish (w := first) rfl) trivial)
  have h₄ := h₃.snoc (internal_of (.lock (w := first) rfl
    (mutexFree_of nofun nofun nofun nofun)) trivial)
  have h₅ := h₄.snoc (internal_of (.take (w := first) rfl rfl) trivial)
  have h₆ := h₅.snoc (internal_of (.finish (w := first) rfl) trivial)
  have h₇ := h₆.snoc (internal_of (.lock (w := first) rfl
    (mutexFree_of nofun nofun nofun nofun)) trivial)
  have h₈ := h₇.snoc (internal_of (.sleep (w := first) rfl rfl rfl) trivial)
  refine ⟨_, _, h₈, rfl, rfl, fun w => ?_⟩
  rw [eq_first w]
  rfl

/-- The two tasks in the queue are finished. -/
theorem always_finishes_two : ∃ (ls : List (Label ℕ (numWorkers 0)))
    (s : State ℕ (numWorkers 0)), Run Internal twoQueued ls s ∧ ls.length ≤ twoQueued.weight ∧
      Stuck Internal s ∧ (finished (twoSubmits ++ ls)).Perm [1, 2] ∧
        ∀ w, s.workers w = .asleep := by
  obtain ⟨ls, s, hrun, hsubmitted, howner, hasleep⟩ := run_twoQueued
  have hstuck := stuck_of_asleep howner hasleep
  obtain ⟨hlength, hquiescent⟩ := always_finishes run_twoSubmits hrun
  have hfinished := (hquiescent hstuck).1
  rw [hsubmitted] at hfinished
  exact ⟨ls, s, hrun, hlength, hstuck, hfinished, hasleep⟩

end Runs

/-! ### The pool of a parallel tick -/

section Tick

variable {N : ℕ} {g : HazardGraph N}

/-- The task of a worker in the model of a tick, until it has been counted. -/
def tickTask : WorkerState N → Option (Fin N)
  | .taken i => some i
  | .running i => some i
  | .releasing i _ => some i
  | .dispatching i _ _ => some i
  | _ => none

def tickQueue (s : TickState N W) : TaskQueue.State (Fin N) (Fin W) :=
  ⟨s.tasks, tickTask ∘ s.workers⟩

def tickLabel : TickLabel N W → Option (TaskQueue.Label (Fin N) (Fin W))
  | .seed i => some (.submit i)
  | .submit _ dep => some (.submit dep)
  | .take w i => some (.take w i)
  | .fetchAdd w i => some (.finish w i)
  | _ => none

theorem tickQueue_setWorker (s : TickState N W) (w : Fin W) (p : WorkerState N) :
    tickQueue (s.setWorker w p) = ⟨s.tasks, Function.update (tickQueue s).serving w (tickTask p)⟩ :=
  congrArg (TaskQueue.State.mk s.tasks) (Function.comp_update _ _ _ _)

theorem tickQueue_setWorker_of_eq {s : TickState N W} {w : Fin W} {p : WorkerState N}
    (h : tickTask p = tickTask (s.workers w)) : tickQueue (s.setWorker w p) = tickQueue s := by
  rw [tickQueue_setWorker, h]
  exact congrArg (TaskQueue.State.mk s.tasks) (Function.update_eq_self w _)

theorem tick_step {s : TickState N W} {l : TickLabel N W} {s' : TickState N W}
    (h : MithAtomas.Step g s l s') :
    match tickLabel l with
    | some l' => TaskQueue.Step (tickQueue s) l' (tickQueue s')
    | none => tickQueue s' = tickQueue s := by
  cases h with
  -- of the main thread's steps only `seed` is one of the queue
  | load hm => rfl
  | seed hm => exact .submit _
  | seeded hm => rfl
  | lockMain hm hfree => rfl
  | test hm => rfl
  | @take w i rest hw ht =>
    have hserving := congrArg TaskQueue.State.serving (tickQueue_setWorker s w (.taken i))
    have hqueue : tickQueue { s.setWorker w (.taken i) with tasks := rest } =
        ⟨rest, Function.update (tickQueue s).serving w (some i)⟩ :=
      congrArg (TaskQueue.State.mk rest) hserving
    show TaskQueue.Step _ (.take w i) _
    rw [hqueue]
    refine .take ?_ ht
    show tickTask (s.workers w) = none
    rw [hw]
    rfl
  -- from here to `fetchAdd` the worker has the task, whatever it does
  | @start w i hw =>
    have hqueue : tickQueue (s.setWorker w (.running i)) = tickQueue s :=
      tickQueue_setWorker_of_eq (by rw [hw]; rfl)
    exact hqueue
  | @finish w i hw =>
    have hqueue : tickQueue (s.setWorker w (.releasing i (g.dependents i))) = tickQueue s :=
      tickQueue_setWorker_of_eq (by rw [hw]; rfl)
    exact hqueue
  | @fetchSub w i dep deps hw =>
    -- whether the dependent is ready or not, the worker still has `i`
    have hqueue : tickQueue (s.setWorker w (if s.inDegree dep = 1 then .dispatching i dep deps
        else .releasing i deps)) = tickQueue s := by
      refine tickQueue_setWorker_of_eq ?_
      rw [hw]
      split <;> rfl
    exact hqueue
  | @submit w i dep deps hw =>
    -- a submission from inside a task
    have hqueue : tickQueue ((s.submit dep).setWorker w (.releasing i deps)) =
        { tickQueue s with tasks := (tickQueue s).tasks ++ [dep] } :=
      tickQueue_setWorker_of_eq (s := s.submit dep) (by
        show _ = tickTask (s.workers w)
        rw [hw]
        rfl)
    show TaskQueue.Step _ (.submit dep) _
    rw [hqueue]
    exact .submit dep
  | @fetchAdd w i hw =>
    -- the last to count goes for the mutex, the others are idle, and neither has a task
    have hserving := congrArg TaskQueue.State.serving
      (tickQueue_setWorker s w (if s.completed + 1 = N then .locking else .idle))
    have hnone : tickTask
        (if s.completed + 1 = N then WorkerState.locking else .idle : WorkerState N) = none := by
      split <;> rfl
    rw [hnone] at hserving
    have hqueue : tickQueue { s.setWorker w (if s.completed + 1 = N then .locking else .idle) with
        completed := s.completed + 1, ended := s.ended ++ [i] } =
          { tickQueue s with serving := Function.update (tickQueue s).serving w none } :=
      congrArg (TaskQueue.State.mk s.tasks) hserving
    show TaskQueue.Step _ (.finish w i) _
    rw [hqueue]
    refine .finish ?_
    show tickTask (s.workers w) = some i
    rw [hw]
    rfl
  -- telling the main thread is after the task
  | lockWorker hw hfree => exact tickQueue_setWorker_of_eq (by rw [hw]; rfl)
  | @notify w hw =>
    have hqueue : tickQueue (s.setWorker w .unlocking) = tickQueue s :=
      tickQueue_setWorker_of_eq (by rw [hw]; rfl)
    exact hqueue
  | unlock hw => exact tickQueue_setWorker_of_eq (by rw [hw]; rfl)

/-- **A tick uses the pool as a queue of tasks**, which is what the pool is (`run_taskQueue`): its
systems begin in the order in which they were submitted. -/
theorem tick_taskQueue {ls : List (TickLabel N W)} {s s' : TickState N W}
    (h : Run (MithAtomas.Step g) s ls s') :
    Run TaskQueue.Step (tickQueue s) (ls.filterMap tickLabel) (tickQueue s') := by
  refine h.refine (I := fun _ => True) tickQueue tickLabel (fun _ _ _ _ _ => trivial) ?_ ?_ trivial
  · intro s l s' l' _ hst hl
    have hstep := tick_step hst
    rwa [hl] at hstep
  · intro s l s' _ hst hl
    have hstep := tick_step hst
    rwa [hl] at hstep

end Tick

end MithAtomas.ThreadPool
