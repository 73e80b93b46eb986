import MithAtomas.Core.TickParallelFresh

/-!
# The parallel tick comes to an end

Along interleavings whose loads are fresh, `workLeft` drops at every step (`Fresh.workLeft_lt`), so
no interleaving goes on for ever, and a state that no step leaves is one in which `tick_parallel_`
has returned (`Fresh.returned_of_stuck`) after running every system once (`Fresh.all_of_returned`).

A spurious wake-up of `done_cv` is not a step: it would only send the main thread through its test
again.
-/

namespace MithAtomas

open Runs WorkerState

variable {N W : ℕ}

/-! ### The measure -/

/-- Steps the main thread still has before it sleeps or returns, twice over in the seeding loop to
pay for the load and the submit of each index. -/
def MainState.stepsLeft : MainState N → ℕ
  | seeding k => 4 + 2 * (N - k)
  | dispatching k => 3 + 2 * (N - k)
  | locking => 3
  | testing => 2
  | blocked => 1
  | returned => 0

/-- Steps of the worker that filled the count. -/
def WorkerState.tailOf : WorkerState N → ℕ
  | locking => 3
  | notifying => 2
  | unlocking => 1
  | _ => 0

/-- What is set aside for the worker that will fill the count. -/
def tailReserve (N completed : ℕ) : ℕ :=
  if completed < N then 9 else 0

/-- What the interleaving still has to do. A notification may send the main thread from `blocked`
back to `locking`, so the steps of the last worker count three times. -/
def workLeft (s : TickState N W) : ℕ :=
  2 * (N - s.submitted.length) + s.tasks.length + (N - s.started.length)
    + (N - s.finished.length) + (N * N - s.released.length) + (N - s.ended.length)
    + 3 * tally tailOf s.workers + tailReserve N s.completed + s.main.stepsLeft

/-! ### Bounds on the histories -/

variable {g : DispatchGraph N} {s s' : TickState N W} {l : TickLabel N W}

/-- A history without repetitions is no longer than there are systems. -/
theorem length_le_of_count_le {l : List (Fin N)} (h : ∀ j, l.count j ≤ 1) : l.length ≤ N := by
  simpa using (List.nodup_iff_count_le_one.mpr h).length_le_card

theorem Fresh.released_length_le (hI : Fresh g s) : s.released.length ≤ N * N := by
  have hnodup : s.released.Nodup := by
    refine List.nodup_iff_count_le_one.mpr fun p => ?_
    have h₁ := hI.released_le p.1 p.2
    have h₂ := List.nodup_iff_count_le_one.mp (g.nodup p.1) p.2
    exact (Nat.le_add_right _ _).trans (h₁.trans h₂)
  simpa using hnodup.length_le_card

/-- **Every step lowers the measure.** -/
theorem Fresh.workLeft_lt (hI' : Fresh g s')
    (hst : Step g.toHazardGraph s l s') : workLeft s' < workLeft s := by
  have hsub := length_le_of_count_le hI'.submitted_le
  have hsta := length_le_of_count_le hI'.started_le
  have hfin := length_le_of_count_le hI'.finished_le
  have hend := length_le_of_count_le hI'.ended_le
  have hrel := hI'.released_length_le
  have hdone := hI'.completed_le
  unfold workLeft
  cases hst
  -- the main thread counts down by itself; a submission is a task the fewer to come
  case load i hm =>
    have hlt := i.isLt
    by_cases hz : s.inDegree i = 0
    · simp only [hm, if_pos hz, MainState.stepsLeft]
      omega
    · simp only [hm, if_neg hz, MainState.stepsLeft]
      omega
  case seed i hm =>
    have hlt := i.isLt
    simp only [TickState.submit, hm, MainState.stepsLeft, List.length_append,
      List.length_singleton] at hsub ⊢
    omega
  case seeded hm =>
    simp only [hm, MainState.stepsLeft]
    omega
  case lockMain hm _ =>
    simp only [hm, MainState.stepsLeft]
    omega
  case test hm =>
    by_cases hc : s.completed = N
    · simp only [hm, if_pos hc, MainState.stepsLeft]
      omega
    · simp only [hm, if_neg hc, MainState.stepsLeft]
      omega
  -- a task moves on: one history gets longer, and the last steps are nobody's yet
  case take w i rest hw ht =>
    have hframe : tally tailOf (Function.update s.workers w (.taken i)) = tally tailOf s.workers :=
      tally_frame hw rfl
    simp only [TickState.setWorker, hframe, ht, List.length_cons]
    omega
  case start w i hw =>
    have hframe : tally tailOf (Function.update s.workers w (.running i)) =
      tally tailOf s.workers :=
      tally_frame hw rfl
    simp only [TickState.setWorker, hframe, List.length_append, List.length_singleton] at hsta ⊢
    omega
  case finish w i hw =>
    have hframe : tally tailOf (Function.update s.workers w (.releasing i (g.dependents i)))
        = tally tailOf s.workers := tally_frame hw rfl
    simp only [TickState.setWorker, hframe, List.length_append, List.length_singleton] at hfin ⊢
    omega
  case fetchSub w i dep deps hw =>
    have hframe : tally tailOf (Function.update s.workers w (if s.inDegree dep = 1 then
        .dispatching i dep deps else .releasing i deps)) = tally tailOf s.workers :=
      tally_frame hw (by split <;> rfl)
    simp only [TickState.setWorker, hframe, List.length_append, List.length_singleton] at hrel ⊢
    omega
  case submit w i dep deps hw =>
    have hframe : tally tailOf (Function.update s.workers w (.releasing i deps))
        = tally tailOf s.workers := tally_frame hw rfl
    simp only [TickState.setWorker, TickState.submit, hframe, List.length_append,
      List.length_singleton] at hsub ⊢
    omega
  case fetchAdd w i hw =>
    have ht := tally_step tailOf hw (if s.completed + 1 = N then .locking else .idle)
    simp only [TickState.setWorker, List.length_append, List.length_singleton] at hend hdone ht ⊢
    -- whoever fills the count takes over what was set aside for it
    by_cases hlast : s.completed + 1 = N
    · rw [if_pos hlast] at ht ⊢
      simp only [tailOf, tailReserve] at ht ⊢
      rw [if_neg (by omega), if_pos (by omega)]
      omega
    · rw [if_neg hlast] at ht ⊢
      simp only [tailOf, tailReserve] at ht ⊢
      rw [if_pos (by omega), if_pos (by omega)]
      omega
  case lockWorker w hw hfree =>
    have ht := tally_step tailOf hw .notifying
    simp only [TickState.setWorker, tailOf] at ht ⊢
    omega
  case notify w hw =>
    have ht := tally_step tailOf hw .unlocking
    simp only [TickState.setWorker, tailOf] at ht ⊢
    -- the main thread is sent back two steps, and the worker pays three
    by_cases hb : s.main = .blocked
    · rw [if_pos hb, hb]
      simp only [MainState.stepsLeft]
      omega
    · rw [if_neg hb]
      omega
  case unlock w hw =>
    have ht := tally_step tailOf hw .idle
    simp only [TickState.setWorker, tailOf] at ht ⊢
    omega

/-! ### No deadlock -/

/-- A step of a worker, as opposed to one of the main thread. -/
def TickLabel.ByWorker : TickLabel N W → Prop
  | load _ | seed _ | seeded | lockMain | test => False
  | _ => True

/-- The workers' steps alone. -/
def WorkerStep (g : HazardGraph N) : TickState N W → TickLabel N W → TickState N W → Prop :=
  Guarded (Step g) fun _ l => l.ByWorker

/-- When no worker can step and the main thread does not hold the mutex, every worker waits for a
task: in any other place it has a step, the mutex being free. -/
theorem idle_of_stuck {g : HazardGraph N} (hmain : s.main ≠ .testing)
    (hstuck : Stuck (WorkerStep g) s) (w : Fin W) : s.workers w = .idle := by
  have hno : ∀ {l s'}, Step g s l s' → l.ByWorker → False := fun hst hl =>
    hstuck _ _ ⟨hl, hst⟩
  have hcases : ∀ x, s.workers x = .idle ∨ s.workers x = .locking := fun x => by
    cases hx : s.workers x with
    | idle => exact .inl rfl
    | locking => exact .inr rfl
    | taken i => exact (hno (Step.start hx) trivial).elim
    | running i => exact (hno (Step.finish hx) trivial).elim
    | releasing i deps =>
      cases deps with
      | nil => exact (hno (Step.fetchAdd hx) trivial).elim
      | cons dep deps => exact (hno (Step.fetchSub hx) trivial).elim
    | dispatching i dep deps => exact (hno (Step.submit hx) trivial).elim
    | notifying => exact (hno (Step.notify hx) trivial).elim
    | unlocking => exact (hno (Step.unlock hx) trivial).elim
  have hfree : s.MutexFree := by
    refine ⟨hmain, fun x => ?_⟩
    rcases hcases x with hx | hx <;> rw [hx] <;> constructor <;> rintro ⟨⟩
  exact (hcases w).resolve_right fun hw => hno (Step.lockWorker hw hfree) trivial

theorem quiet_of_stuck {g : HazardGraph N} (hW : 0 < W) (hmain : s.main ≠ .testing)
    (hstuck : Stuck (WorkerStep g) s) : s.Quiet := by
  have hidle := idle_of_stuck hmain hstuck
  refine ⟨?_, fun w => by rw [hidle w]; rfl⟩
  cases ht : s.tasks with
  | nil => rfl
  | cons i rest =>
    have hst : WorkerStep g s (.take ⟨0, hW⟩ i) _ := ⟨trivial, Step.take (hidle ⟨0, hW⟩) ht⟩
    exact absurd hst (hstuck _ _)

/-- In a stuck state the main thread sleeps or has returned. -/
theorem Fresh.main_of_stuck (hI : Fresh g s) (hstuck : Stuck (Step g.toHazardGraph) s) :
    s.main = .blocked ∨ s.main = .returned := by
  cases hm : s.main with
  | seeding k =>
    rcases Nat.lt_or_ge k N with hk | hk
    · exact absurd (Step.load (i := ⟨k, hk⟩) hm) (hstuck _ _)
    · obtain rfl : k = N := le_antisymm (hI.seeding_le k hm) hk
      exact absurd (Step.seeded hm) (hstuck _ _)
  | dispatching i => exact absurd (Step.seed hm) (hstuck _ _)
  | locking =>
    have hmain : s.main ≠ .testing := by rw [hm]; rintro ⟨⟩
    have hidle := idle_of_stuck hmain fun l s' hst => hstuck l s' hst.2
    have hfree : s.MutexFree := ⟨hmain, fun w => by rw [hidle w]; constructor <;> rintro ⟨⟩⟩
    exact absurd (Step.lockMain hm hfree) (hstuck _ _)
  | testing => exact absurd (Step.test hm) (hstuck _ _)
  | blocked => exact .inl rfl
  | returned => exact .inr rfl

/-- **No deadlock.** A state that no step leaves is one in which the tick has returned. A sleeping
main thread has seeded every root, so the quiet pool has ended every system and the count is full;
then a notification is still due (`Laws.blocked_wake`), and its worker is not stuck. -/
theorem Fresh.returned_of_stuck (hI : Fresh g s) (hW : 0 < W)
    (hstuck : Stuck (Step g.toHazardGraph) s) : s.main = .returned := by
  refine (hI.main_of_stuck hstuck).resolve_left fun hb => ?_
  have hmain : s.main ≠ .testing := by rw [hb]; rintro ⟨⟩
  have hworkers : Stuck (WorkerStep g.toHazardGraph) s := fun l s' hst => hstuck l s' hst.2
  have hquiet := quiet_of_stuck hW hmain hworkers
  have hended : ∀ j, s.ended.count j = 1 := fun j => by
    refine hI.ended_of_quiet hquiet j fun r hr _ => ?_
    have h := hI.root_eq r hr
    rw [hb] at h
    exact h
  have hfull : s.completed = N := by
    rw [hI.completed_eq, ← List.toFinset_card_of_nodup hI.ended_nodup,
      (Finset.card_eq_iff_eq_univ _).mpr, Fintype.card_fin]
    refine Finset.eq_univ_iff_forall.mpr fun j => List.mem_toFinset.mpr ?_
    exact List.count_pos_iff.mp (by rw [hended j]; exact Nat.one_pos)
  have hwake := hI.blocked_wake hb hfull
  have hzero : tally lastOf s.workers = 0 := tally_eq_zero fun w => by
    rw [idle_of_stuck hmain hworkers w]
    rfl
  omega

/-- When the tick has returned, every system has run to its end, once. -/
theorem Fresh.all_of_returned (hI : Fresh g s) (hr : s.main = .returned) (j : Fin N) :
    s.started.count j = 1 ∧ s.finished.count j = 1 := by
  have hfull : s.completed = N := le_antisymm hI.completed_le (hI.returned_le hr)
  have hend := hI.ended_of_full hfull j
  obtain ⟨-, -, h₁, h₂⟩ := hI.stages_of_ended hend
  have h₃ := hI.started_eq j
  have h₄ := hI.finished_eq j
  omega

end MithAtomas
