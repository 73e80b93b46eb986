import MithAtomas.Core.TickParallel

/-!
# Conservation laws of the parallel tick

What holds in *every* interleaving of `tick_parallel_`, whatever the seeding loop reads. Each law
says that what enters a stage of a task's life is what is in it or has left it: a submitted task
is queued, taken or started (`submitted_eq`); a started one is running or finished (`started_eq`);
a finished one is releasing its dependents or has counted itself in `completed` (`finished_eq`,
`completed_eq`); per edge, a finished task has decremented the dependent or still has it on its
list (`released_eq`); and a counter is its initial value less the decrements (`inDegree_eq`). The
last three are about the main thread: it sleeps only if it will be woken (`blocked_wake`) and
returns only on a full count (`returned_le`).

What a worker holds is counted by `tally`, the sum of an indicator over the pool.
-/

namespace MithAtomas

open Runs

variable {N W : ℕ}

/-! ### Tallies over the pool -/

/-- The sum of `f` over the workers. -/
def tally (f : WorkerState N → ℕ) (ws : Fin W → WorkerState N) : ℕ :=
  ∑ w, f (ws w)

theorem tally_update (f : WorkerState N → ℕ) (ws : Fin W → WorkerState N) (w : Fin W)
    (p : WorkerState N) :
    tally f (Function.update ws w p) + f (ws w) = tally f ws + f p := by
  have h₁ := Finset.add_sum_erase Finset.univ (fun x => f (ws x)) (Finset.mem_univ w)
  have h₂ := Finset.add_sum_erase Finset.univ (fun x => f (Function.update ws w p x))
    (Finset.mem_univ w)
  have h₃ : ∑ x ∈ Finset.univ.erase w, f (Function.update ws w p x)
      = ∑ x ∈ Finset.univ.erase w, f (ws x) := by
    refine Finset.sum_congr rfl fun x hx => ?_
    rw [Function.update_of_ne (Finset.ne_of_mem_erase hx)]
  simp only [Function.update_self] at h₂
  unfold tally
  omega

theorem le_tally (f : WorkerState N → ℕ) (ws : Fin W → WorkerState N) (w : Fin W) :
    f (ws w) ≤ tally f ws :=
  Finset.single_le_sum (f := fun x => f (ws x)) (fun _ _ => Nat.zero_le _) (Finset.mem_univ w)

/-- Two workers at which `f` is positive are counted twice. -/
theorem add_le_tally (f : WorkerState N → ℕ) (ws : Fin W → WorkerState N) {w w' : Fin W}
    (hne : w ≠ w') : f (ws w) + f (ws w') ≤ tally f ws := by
  have h₁ := Finset.add_sum_erase Finset.univ (fun x => f (ws x)) (Finset.mem_univ w)
  have h₂ := Finset.single_le_sum (f := fun x => f (ws x)) (s := Finset.univ.erase w)
    (fun _ _ => Nat.zero_le _) (Finset.mem_erase.mpr ⟨hne.symm, Finset.mem_univ w'⟩)
  unfold tally
  omega

theorem tally_eq_zero {f : WorkerState N → ℕ} {ws : Fin W → WorkerState N}
    (h : ∀ w, f (ws w) = 0) : tally f ws = 0 :=
  Finset.sum_eq_zero fun w _ => h w

/-! ### What a worker holds -/

namespace WorkerState

/-- 1 if the worker has popped the task of `i` and not begun its `tick`. -/
def takenOf (i : Fin N) : WorkerState N → ℕ
  | taken k => if k = i then 1 else 0
  | _ => 0

/-- 1 if the worker is inside the `tick` of `i`. -/
def runningOf (i : Fin N) : WorkerState N → ℕ
  | running k => if k = i then 1 else 0
  | _ => 0

/-- 1 if the worker is past the `tick` of `i` and has not counted it in `completed`. -/
def releasingOf (i : Fin N) : WorkerState N → ℕ
  | releasing k _ => if k = i then 1 else 0
  | dispatching k _ _ => if k = i then 1 else 0
  | _ => 0

/-- 1 if the worker is about to submit `j`. -/
def claimOf (j : Fin N) : WorkerState N → ℕ
  | dispatching _ dep _ => if dep = j then 1 else 0
  | _ => 0

/-- How often the worker, releasing the dependents of `i`, still has `j` to decrement. -/
def pendingOf (i j : Fin N) : WorkerState N → ℕ
  | releasing k deps => if k = i then deps.count j else 0
  | dispatching k _ deps => if k = i then deps.count j else 0
  | _ => 0

/-- 1 if the worker still has to notify the main thread. -/
def lastOf : WorkerState N → ℕ
  | locking => 1
  | notifying => 1
  | _ => 0

end WorkerState

open WorkerState

/-! ### The laws -/

structure Laws (g : HazardGraph N) (s : TickState N W) : Prop where
  /-- A submitted task is queued, taken or started. -/
  submitted_eq : ∀ i, s.submitted.count i
    = s.tasks.count i + tally (takenOf i) s.workers + s.started.count i
  /-- A started task is running or finished. -/
  started_eq : ∀ i, s.started.count i = tally (runningOf i) s.workers + s.finished.count i
  /-- A finished task is releasing its dependents or has ended. -/
  finished_eq : ∀ i, s.finished.count i = tally (releasingOf i) s.workers + s.ended.count i
  completed_eq : s.completed = s.ended.length
  /-- Along an edge, each finished run of `i` has decremented `j` or still has to. -/
  released_eq : ∀ i j, s.finished.count i * (g.dependents i).count j
    = s.released.count (i, j) + tally (pendingOf i j) s.workers
  /-- A counter is its initial value less the decrements. -/
  inDegree_eq : ∀ j, s.inDegree j = g.inDegreeInitial j - ∑ i, (s.released.count (i, j) : ℤ)
  seeding_le : ∀ k, s.main = .seeding k → k ≤ N
  /-- No wake-up is lost: a main thread that sleeps while the count is full will be notified. -/
  blocked_wake : s.main = .blocked → s.completed = N → 0 < tally lastOf s.workers
  returned_le : s.main = .returned → N ≤ s.completed

variable {g : HazardGraph N} {s s' : TickState N W} {l : TickLabel N W}

theorem Laws.initial (g : HazardGraph N) : Laws g (TickState.initial g W) where
  submitted_eq := fun i => by simp [TickState.initial, tally, takenOf]
  started_eq := fun i => by simp [TickState.initial, tally, runningOf]
  finished_eq := fun i => by simp [TickState.initial, tally, releasingOf]
  completed_eq := rfl
  released_eq := fun i j => by simp [TickState.initial, tally, pendingOf]
  inDegree_eq := fun j => by simp [TickState.initial]
  seeding_le := fun k hk => by
    by_cases hN : N = 0
    · simp [TickState.initial, hN] at hk
    · simp only [TickState.initial, if_neg hN, MainState.seeding.injEq] at hk
      omega
  blocked_wake := fun hb => by
    by_cases hN : N = 0 <;> simp [TickState.initial, hN] at hb
  returned_le := fun hr => by
    by_cases hN : N = 0
    · exact hN.le
    · simp [TickState.initial, hN] at hr

/-- What one worker step does to a tally. -/
theorem tally_step (f : WorkerState N → ℕ) {ws : Fin W → WorkerState N} {w : Fin W}
    {p : WorkerState N} (hw : ws w = p) (p' : WorkerState N) :
    tally f (Function.update ws w p') + f p = tally f ws + f p' := by
  rw [← hw]
  exact tally_update f ws w p'

/-- A worker step that does not concern `f` leaves its tally. -/
theorem tally_frame {f : WorkerState N → ℕ} {ws : Fin W → WorkerState N} {w : Fin W}
    {p p' : WorkerState N} (hw : ws w = p) (hf : f p' = f p) :
    tally f (Function.update ws w p') = tally f ws := by
  have := tally_step f hw p'
  omega

/-- Enters at `seed` and `submit`, moves at `take`, leaves at `start`. -/
theorem Laws.submitted_step (hI : Laws g s) (hst : Step g s l s') (i : Fin N) :
    s'.submitted.count i
      = s'.tasks.count i + tally (takenOf i) s'.workers + s'.started.count i := by
  have h := hI.submitted_eq i
  cases hst
  case seed k hm =>
    simp only [TickState.submit, List.count_append]
    omega
  case submit w k dep deps hw =>
    have ht := tally_step (takenOf i) hw (.releasing k deps)
    simp only [TickState.setWorker, TickState.submit, List.count_append, takenOf] at ht ⊢
    omega
  case take w k rest hw hq =>
    have ht := tally_step (takenOf i) hw (.taken k)
    simp only [TickState.setWorker, hq, List.count_cons, beq_iff_eq, takenOf] at h ht ⊢
    omega
  case start w k hw =>
    have ht := tally_step (takenOf i) hw (.running k)
    simp only [TickState.setWorker, List.count_append, List.count_singleton, beq_iff_eq,
      takenOf] at ht ⊢
    omega
  -- the other steps move no task between the three
  all_goals first
    | exact h
    | (simp only [TickState.setWorker]
       rw [tally_frame ‹s.workers _ = _›]
       · exact h
       · first | rfl | (split <;> rfl))

/-- Enters at `start`, leaves at `finish`. -/
theorem Laws.started_step (hI : Laws g s) (hst : Step g s l s') (i : Fin N) :
    s'.started.count i = tally (runningOf i) s'.workers + s'.finished.count i := by
  have h := hI.started_eq i
  cases hst
  case start w k hw =>
    have ht := tally_step (runningOf i) hw (.running k)
    simp only [TickState.setWorker, List.count_append, List.count_singleton, beq_iff_eq,
      runningOf] at ht ⊢
    omega
  case finish w k hw =>
    have ht := tally_step (runningOf i) hw (.releasing k (g.dependents k))
    simp only [TickState.setWorker, List.count_append, List.count_singleton, beq_iff_eq,
      runningOf] at ht ⊢
    omega
  all_goals first
    | exact h
    | (simp only [TickState.setWorker, TickState.submit]
       rw [tally_frame ‹s.workers _ = _›]
       · exact h
       · first | rfl | (split <;> rfl))

/-- Enters at `finish`, leaves at `fetchAdd`; the steps over the dependents keep the owner. -/
theorem Laws.finished_step (hI : Laws g s) (hst : Step g s l s') (i : Fin N) :
    s'.finished.count i = tally (releasingOf i) s'.workers + s'.ended.count i := by
  have h := hI.finished_eq i
  cases hst
  case finish w k hw =>
    have ht := tally_step (releasingOf i) hw (.releasing k (g.dependents k))
    simp only [TickState.setWorker, List.count_append, List.count_singleton, beq_iff_eq,
      releasingOf] at ht ⊢
    omega
  case fetchAdd w k hw =>
    have ht := tally_step (releasingOf i) hw (if s.completed + 1 = N then .locking else .idle)
    have h0 : releasingOf i (if s.completed + 1 = N then .locking else .idle) = 0 := by
      split <;> rfl
    rw [h0] at ht
    simp only [TickState.setWorker, List.count_append, List.count_singleton, beq_iff_eq,
      releasingOf] at ht ⊢
    omega
  all_goals first
    | exact h
    | (simp only [TickState.setWorker, TickState.submit]
       rw [tally_frame ‹s.workers _ = _›]
       · exact h
       · first | rfl | (split <;> rfl))

/-- Enters at `finish`, one unit for each time `j` is on the list; leaves at `fetchSub`. -/
theorem Laws.released_step (hI : Laws g s) (hst : Step g s l s') (i j : Fin N) :
    s'.finished.count i * (g.dependents i).count j
      = s'.released.count (i, j) + tally (pendingOf i j) s'.workers := by
  have h := hI.released_eq i j
  cases hst
  case finish w k hw =>
    -- the finished system's dependents are pending all at once
    have ht := tally_step (pendingOf i j) hw (.releasing k (g.dependents k))
    by_cases hk : k = i
    · subst hk
      simp only [TickState.setWorker, List.count_append, List.count_singleton_self, pendingOf,
        if_true, Nat.add_mul] at ht ⊢
      omega
    · simp only [TickState.setWorker, List.count_append, List.count_singleton, beq_iff_eq, hk,
        pendingOf, if_false, Nat.add_zero] at ht ⊢
      omega
  case fetchSub w k dep deps hw =>
    have ht := tally_step (pendingOf i j) hw
      (if s.inDegree dep = 1 then .dispatching k dep deps else .releasing k deps)
    have h1 : pendingOf i j (if s.inDegree dep = 1 then .dispatching k dep deps
        else .releasing k deps) = if k = i then deps.count j else 0 := by
      split <;> rfl
    rw [h1] at ht
    -- one of them is released
    by_cases hk : k = i
    · subst hk
      simp only [TickState.setWorker, List.count_append, List.count_cons, List.count_nil,
        beq_iff_eq, Prod.mk.injEq, true_and, pendingOf, if_true] at ht ⊢
      omega
    · simp only [TickState.setWorker, List.count_append, List.count_cons, List.count_nil,
        beq_iff_eq, Prod.mk.injEq, hk, false_and, pendingOf, if_false, Nat.add_zero] at ht ⊢
      omega
  all_goals first
    | exact h
    | (simp only [TickState.setWorker, TickState.submit]
       rw [tally_frame ‹s.workers _ = _›]
       · exact h
       · first | rfl | (split <;> simp [pendingOf]))

theorem Laws.inDegree_step (hI : Laws g s) (hst : Step g s l s') (j : Fin N) :
    s'.inDegree j = g.inDegreeInitial j - ∑ i, (s'.released.count (i, j) : ℤ) := by
  have h := hI.inDegree_eq j
  cases hst
  case fetchSub w k dep deps hw =>
    simp only [List.count_append, List.count_singleton, beq_iff_eq,
      Prod.mk.injEq, Nat.cast_add, Finset.sum_add_distrib]
    by_cases hj : dep = j
    · subst hj
      simp only [Function.update_self, and_true, Nat.cast_ite, Nat.cast_one, Nat.cast_zero,
        Finset.sum_ite_eq, Finset.mem_univ, if_true, h]
      omega
    · simp [Function.update_of_ne (Ne.symm hj), hj, h]
  all_goals exact h

theorem Laws.seeding_step (hI : Laws g s) (hst : Step g s l s') (k : ℕ)
    (hk : s'.main = .seeding k) : k ≤ N := by
  have h := hI.seeding_le k
  cases hst
  case load i hm =>
    simp only at hk
    split at hk
    · cases hk
    · obtain rfl := MainState.seeding.inj hk
      omega
  case seed i hm =>
    obtain rfl := MainState.seeding.inj hk
    omega
  case test hm =>
    simp only at hk
    split at hk <;> cases hk
  case notify w hw =>
    simp only at hk
    split at hk
    · cases hk
    · exact h hk
  all_goals first | cases hk | exact h hk

/-- The main thread goes to sleep on a count that is not full, and the worker that fills it has
the notification ahead of it. -/
theorem Laws.blocked_step (hI : Laws g s) (hst : Step g s l s') (hb : s'.main = .blocked)
    (hc : s'.completed = N) : 0 < tally lastOf s'.workers := by
  have h := hI.blocked_wake
  cases hst
  case load i hm =>
    simp only at hb
    split at hb <;> cases hb
  case test hm =>
    simp only at hb
    split at hb
    · cases hb
    · contradiction
  case fetchAdd w i hw =>
    -- the worker that fills the count will notify
    have ht := tally_step lastOf hw (if s.completed + 1 = N then .locking else .idle)
    simp only at hc
    rw [if_pos hc] at ht
    simp only [TickState.setWorker, if_pos hc, lastOf] at ht ⊢
    omega
  case lockWorker w hw hfree =>
    have ht := tally_step lastOf hw .notifying
    have h := h hb hc
    simp only [TickState.setWorker, lastOf] at ht ⊢
    omega
  case notify w hw =>
    simp only at hb
    split at hb
    · cases hb
    · contradiction
  all_goals first
    | cases hb
    | exact h hb hc
    | (simp only [TickState.setWorker, TickState.submit]
       rw [tally_frame ‹s.workers _ = _›]
       · exact h hb hc
       · first | rfl | (split <;> rfl))

theorem Laws.returned_step (hI : Laws g s) (hst : Step g s l s') (hr : s'.main = .returned) :
    N ≤ s'.completed := by
  have h := hI.returned_le
  cases hst
  case load i hm =>
    simp only at hr
    split at hr <;> cases hr
  case test hm =>
    simp only at hr
    split at hr
    · exact (‹s.completed = N›).ge
    · cases hr
  case notify w hw =>
    simp only at hr
    split at hr
    · cases hr
    · exact h hr
  case fetchAdd w i hw => exact (h hr).trans (Nat.le_succ _)
  all_goals first | cases hr | exact h hr

/-- **Every step keeps the laws.** -/
theorem Laws.step (hI : Laws g s) (hst : Step g s l s') : Laws g s' where
  submitted_eq := hI.submitted_step hst
  started_eq := hI.started_step hst
  finished_eq := hI.finished_step hst
  completed_eq := by
    have h := hI.completed_eq
    cases hst
    case fetchAdd w k hw => simp [h]
    all_goals exact h
  released_eq := hI.released_step hst
  inDegree_eq := hI.inDegree_step hst
  seeding_le := hI.seeding_step hst
  blocked_wake := hI.blocked_step hst
  returned_le := hI.returned_step hst

/-- The laws hold in every state of every interleaving. -/
theorem Laws.of_run {ls : List (TickLabel N W)}
    (h : Run (Step g) (TickState.initial g W) ls s) : Laws g s :=
  h.invariant (fun _ _ _ hI hst => hI.step hst) (Laws.initial g)

end MithAtomas
