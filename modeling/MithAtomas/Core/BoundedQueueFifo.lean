import MithAtomas.Core.QueueComponents
import MithAtomas.Framework.Fifo

/-!
# A bounded queue is a FIFO

Every sequence of `push` and `pop` on a `BoundedQueue`, from its construction on, gives the results
that a `Fifo` of the same capacity gives, which evicts under `DropOldest` only. `Refines` relates
the ring buffer to the abstract queue: it holds its contents, its indices are in place, and its
counters count the discarded items, as far as 32 bits go.

One call keeps `Refines` and gives the same result (`Refines.call`); the runs follow by induction on
the calls (`run_refines`).
-/

namespace MithAtomas

/-- A call of a queue's interface. -/
inductive QueueCall (T : Type) where
  | push (item : T)
  | pop
  deriving DecidableEq, Repr

/-- What it returns. -/
inductive QueueResult (T : Type) where
  | pushed (ok : Bool)
  | popped (item : Option T)
  deriving DecidableEq, Repr

/-- The item that a call offers. -/
def QueueCall.offers {T : Type} : QueueCall T → Option T
  | .push item => some item
  | .pop => none

/-- The item that has come out. -/
def QueueResult.takes {T : Type} : QueueResult T → Option T
  | .pushed _ => none
  | .popped item => item

/-- The same call of the abstract queue. -/
def QueueCall.onFifo {T : Type} (capacity : ℕ) (evicts : Bool) (f : Fifo T) :
    QueueCall T → Fifo T × QueueResult T
  | .push item => ((f.push capacity evicts item).1, .pushed (f.push capacity evicts item).2)
  | .pop => (f.pop, .popped f.contents.head?)

namespace BoundedQueue

variable {T : Type} {N : ℕ} {policy : OverflowPolicy}

/-- A call, with its result. -/
def call (q : BoundedQueue T N policy) : QueueCall T → BoundedQueue T N policy × QueueResult T
  | .push item => ((q.push item).1, .pushed (q.push item).2)
  | .pop =>
    match q.pop with
    | none => (q, .popped none)
    | some (item, q') => (q', .popped (some item))

/-- Calls in a row, and what they return. -/
def runCalls {S : Type} (exec : S → QueueCall T → S × QueueResult T) :
    S → List (QueueCall T) → S × List (QueueResult T)
  | s, [] => (s, [])
  | s, c :: cs =>
    let rest := runCalls exec (exec s c).1 cs
    (rest.1, (exec s c).2 :: rest.2)

/-- The run of a queue from its construction. -/
def run [Inhabited T] [NeZero N] (policy : OverflowPolicy) (cs : List (QueueCall T)) :
    BoundedQueue T N policy × List (QueueResult T) :=
  runCalls call empty cs

/-- The policy discards the oldest item, rather than the new one. -/
def evicts (policy : OverflowPolicy) : Bool :=
  policy = .dropOldest

/-- The run of the abstract queue. -/
def fifoRun (N : ℕ) (policy : OverflowPolicy) (cs : List (QueueCall T)) :
    Fifo T × List (QueueResult T) :=
  runCalls (fun f c => c.onFifo N (evicts policy) f) {} cs

/-- **The ring buffer and the queue that it stands for.** -/
structure Refines [NeZero N] (q : BoundedQueue T N policy) (f : Fifo T) : Prop where
  items : q.items = f.contents
  accounts : f.Accounts
  /-- a queue has no `clear` -/
  cleared : f.cleared = []
  droppedCount : q.droppedCount = UInt32.ofNat f.discarded.length
  overflowEvents : q.overflowEvents = UInt32.ofNat f.discarded.length

section

variable [NeZero N] {q : BoundedQueue T N policy} {f : Fifo T}

theorem Refines.size (h : q.Refines f) : q.size = f.contents.length := by
  rw [← h.items, length_items]

omit [NeZero N] in
/-- What a push returns. -/
theorem push_snd_eq_false_iff (q : BoundedQueue T N policy) (item : T) :
    (q.push item).2 = false ↔ policy ≠ .dropOldest ∧ q.size = N := by
  unfold push
  by_cases hfull : q.size = N
  · by_cases hpolicy : policy = .dropOldest
    · rw [dif_pos hfull, if_pos hpolicy]
      exact ⟨nofun, fun h => absurd hpolicy h.1⟩
    · rw [dif_pos hfull, if_neg hpolicy]
      exact ⟨fun _ => ⟨hpolicy, hfull⟩, fun _ => rfl⟩
  · rw [dif_neg hfull]
    exact ⟨nofun, fun h => absurd h.2 hfull⟩

/-- A full queue that does not discard its oldest item keeps its contents. -/
theorem items_push_of_keeps (hpolicy : policy ≠ .dropOldest) (hfull : q.size = N) (item : T) :
    (q.push item).1.items = q.items := by
  unfold push
  rw [dif_pos hfull, if_neg hpolicy]
  rfl

theorem items_push_of_evicts (hpolicy : policy = .dropOldest) (hfull : q.size = N) (item : T) :
    (q.push item).1.items = q.items.tail ++ [item] := by
  subst hpolicy
  exact (q.items_push_dropOldest hfull item).1

omit [NeZero N] in
/-- A push on a full queue is counted, by both counters. -/
theorem counters_push_of_full (hfull : q.size = N) (item : T) :
    (q.push item).1.droppedCount = q.droppedCount + 1 ∧
      (q.push item).1.overflowEvents = q.overflowEvents + 1 := by
  unfold push
  by_cases hpolicy : policy = .dropOldest
  · rw [dif_pos hfull, if_pos hpolicy]
    exact ⟨rfl, rfl⟩
  · rw [dif_pos hfull, if_neg hpolicy]
    exact ⟨rfl, rfl⟩

omit [NeZero N] in
theorem counters_push_of_room (hroom : q.size ≠ N) (item : T) :
    (q.push item).1.droppedCount = q.droppedCount ∧
      (q.push item).1.overflowEvents = q.overflowEvents := by
  unfold push
  rw [dif_neg hroom]
  exact ⟨rfl, rfl⟩

/-- A pop returns the oldest item. -/
theorem pop_map_fst (q : BoundedQueue T N policy) : q.pop.map Prod.fst = q.items.head? := by
  cases hpop : q.pop with
  | none =>
    have hempty : q.items = [] := by
      rw [← List.length_eq_zero_iff, length_items]
      exact pop_eq_none_iff q |>.mp hpop
    rw [hempty]
    rfl
  | some result =>
    obtain ⟨item, q'⟩ := result
    rw [(q.items_of_pop hpop).1]
    rfl

omit [NeZero N] in
/-- A pop leaves the counters alone. -/
theorem counters_pop {item : T} {q' : BoundedQueue T N policy} (h : q.pop = some (item, q')) :
    q'.droppedCount = q.droppedCount ∧ q'.overflowEvents = q.overflowEvents := by
  unfold pop at h
  split at h
  · cases h
  · cases h
    exact ⟨rfl, rfl⟩

/-- One more item has been discarded. -/
theorem ofNat_length_discard (l : List T) (x : T) :
    UInt32.ofNat (l ++ [x]).length = UInt32.ofNat l.length + 1 := by
  rw [List.length_append, List.length_singleton, UInt32.ofNat_add]
  rfl

/-- A full queue that drops the oldest item takes the new one in its place. -/
theorem Refines.push_of_evicts (h : q.Refines f) (hpolicy : policy = .dropOldest)
    (hfull : q.size = N) (item : T) : (q.push item).1.Refines (f.evict.accept item) := by
  obtain ⟨hdropped, hoverflow⟩ := counters_push_of_full hfull item
  have hsize := h.size
  have hpos := Nat.pos_of_ne_zero (NeZero.ne N)
  obtain ⟨x, xs, hcontents⟩ : ∃ x xs, f.contents = x :: xs :=
    List.exists_cons_of_length_pos (by omega)
  have hdiscarded : UInt32.ofNat (f.evict.accept item).discarded.length
      = UInt32.ofNat f.discarded.length + 1 := by
    show UInt32.ofNat (f.discarded ++ f.contents.take 1).length = _
    rw [hcontents]
    exact ofNat_length_discard _ x
  refine ⟨?_, h.accounts.evict.accept item, h.cleared, ?_, ?_⟩
  · rw [items_push_of_evicts hpolicy hfull, h.items]
    rfl
  · rw [hdropped, h.droppedCount, hdiscarded]
  · rw [hoverflow, h.overflowEvents, hdiscarded]

/-- A full queue with another policy refuses the new item. -/
theorem Refines.push_of_keeps (h : q.Refines f) (hpolicy : policy ≠ .dropOldest)
    (hfull : q.size = N) (item : T) : (q.push item).1.Refines (f.refuse item) := by
  obtain ⟨hdropped, hoverflow⟩ := counters_push_of_full hfull item
  have hdiscarded : UInt32.ofNat (f.refuse item).discarded.length
      = UInt32.ofNat f.discarded.length + 1 := ofNat_length_discard _ item
  refine ⟨?_, h.accounts.refuse item, h.cleared, ?_, ?_⟩
  · rw [items_push_of_keeps hpolicy hfull]
    exact h.items
  · rw [hdropped, h.droppedCount, hdiscarded]
  · rw [hoverflow, h.overflowEvents, hdiscarded]

theorem Refines.push_of_room (h : q.Refines f) (hroom : q.size ≠ N) (item : T) :
    (q.push item).1.Refines (f.accept item) := by
  obtain ⟨hdropped, hoverflow⟩ := counters_push_of_room hroom item
  refine ⟨?_, h.accounts.accept item, h.cleared, hdropped.trans h.droppedCount,
    hoverflow.trans h.overflowEvents⟩
  rw [(q.items_push_of_room hroom item).1, h.items]
  rfl

/-- **A push** does to the ring buffer what it does to the abstract queue. -/
theorem Refines.push (h : q.Refines f) (item : T) :
    (q.push item).1.Refines (f.push N (evicts policy) item).1 ∧
      (q.push item).2 = (f.push N (evicts policy) item).2 := by
  have hsize := h.size
  by_cases hfull : q.size = N
  · rw [Fifo.push_of_full (by omega)]
    by_cases hpolicy : policy = .dropOldest
    · have hevicts : evicts policy = true := by rw [evicts, hpolicy]; rfl
      rw [if_pos hevicts]
      refine ⟨h.push_of_evicts hpolicy hfull item, ?_⟩
      rw [← Bool.not_eq_false, push_snd_eq_false_iff]
      exact fun hno => hno.1 hpolicy
    · have hkeeps : evicts policy ≠ true := by simpa [evicts] using hpolicy
      rw [if_neg hkeeps]
      exact ⟨h.push_of_keeps hpolicy hfull item,
        (q.push_snd_eq_false_iff item).mpr ⟨hpolicy, hfull⟩⟩
  · have hroom : f.contents.length < N := by
      have hle := q.size_le
      omega
    rw [Fifo.push_of_room hroom]
    exact ⟨h.push_of_room hfull item, (q.items_push_of_room hfull item).2⟩

/-- **A pop**, too. -/
theorem Refines.pop {item : T} {q' : BoundedQueue T N policy} (h : q.Refines f)
    (hpop : q.pop = some (item, q')) : q'.Refines f.pop ∧ f.contents.head? = some item := by
  obtain ⟨hitems, -⟩ := q.items_of_pop hpop
  obtain ⟨hdropped, hoverflow⟩ := counters_pop hpop
  have hcontents : f.contents = item :: q'.items := h.items.symm.trans hitems
  refine ⟨⟨?_, h.accounts.pop, h.cleared, ?_, ?_⟩, ?_⟩
  · rw [Fifo.contents_pop, hcontents, List.tail_cons]
  · rw [hdropped, h.droppedCount]
    rfl
  · rw [hoverflow, h.overflowEvents]
    rfl
  · rw [hcontents, List.head?_cons]

/-- **One call** keeps the relation and gives the same result. -/
theorem Refines.call (h : q.Refines f) (c : QueueCall T) :
    (q.call c).1.Refines (c.onFifo N (evicts policy) f).1 ∧
      (q.call c).2 = (c.onFifo N (evicts policy) f).2 := by
  cases c with
  | push item =>
    obtain ⟨hrefines, hok⟩ := h.push item
    exact ⟨hrefines, congrArg QueueResult.pushed hok⟩
  | pop =>
    unfold BoundedQueue.call
    cases hpop : q.pop with
    | none =>
      -- an empty queue stays as it is, on both sides
      have hempty : f.contents = [] := by
        rw [← List.length_eq_zero_iff, ← h.size]
        exact q.pop_eq_none_iff.mp hpop
      have hsame : f.pop = f := by
        unfold Fifo.pop
        ext1 <;> simp [hempty]
      refine ⟨?_, ?_⟩
      · show q.Refines f.pop
        rw [hsame]
        exact h
      · show QueueResult.popped none = .popped f.contents.head?
        rw [hempty, List.head?_nil]
    | some result =>
      obtain ⟨item, q'⟩ := result
      obtain ⟨hrefines, hhead⟩ := h.pop hpop
      refine ⟨hrefines, ?_⟩
      show QueueResult.popped (some item) = .popped f.contents.head?
      rw [hhead]

/-- Calls in a row. -/
theorem Refines.runCalls (h : q.Refines f) (cs : List (QueueCall T)) :
    (BoundedQueue.runCalls BoundedQueue.call q cs).1.Refines
        (BoundedQueue.runCalls (fun f c => c.onFifo N (evicts policy) f) f cs).1 ∧
      (BoundedQueue.runCalls BoundedQueue.call q cs).2
        = (BoundedQueue.runCalls (fun f c => c.onFifo N (evicts policy) f) f cs).2 := by
  induction cs generalizing q f with
  | nil => exact ⟨h, rfl⟩
  | cons c cs ih =>
    obtain ⟨hone, hresult⟩ := h.call c
    obtain ⟨hrest, hresults⟩ := ih hone
    exact ⟨hrest, congrArg₂ List.cons hresult hresults⟩

/-! ### The history of a run -/

omit [NeZero N] in
/-- The items offered are those of the pushes, and the items popped those of the results. -/
theorem history_runCalls (evicts : Bool) (f : Fifo T) (cs : List (QueueCall T)) :
    (runCalls (fun f c => c.onFifo N evicts f) f cs).1.offered
        = f.offered ++ cs.filterMap QueueCall.offers ∧
      (runCalls (fun f c => c.onFifo N evicts f) f cs).1.popped
        = f.popped ++ (runCalls (fun f c => c.onFifo N evicts f) f cs).2.filterMap
            QueueResult.takes := by
  induction cs generalizing f with
  | nil => exact ⟨(List.append_nil _).symm, (List.append_nil _).symm⟩
  | cons c cs ih =>
    obtain ⟨hoffered, hpopped⟩ := ih (c.onFifo N evicts f).1
    -- a push offers, a pop takes the front
    cases c with
    | push item =>
      refine ⟨?_, ?_⟩
      · refine hoffered.trans ?_
        show (f.push N evicts item).1.offered ++ _ = f.offered ++ (item :: _)
        rw [Fifo.offered_push, List.append_assoc]
        rfl
      · refine hpopped.trans ?_
        show (f.push N evicts item).1.popped ++ _ = _
        rw [Fifo.popped_push]
        rfl
    | pop =>
      refine ⟨hoffered, hpopped.trans ?_⟩
      show f.popped ++ f.contents.take 1 ++ _ = f.popped ++ (QueueResult.popped _ :: _).filterMap _
      rw [List.append_assoc]
      cases f.contents <;> rfl

/-- **A bounded queue is a bounded FIFO**, with a history that accounts for every item. -/
theorem run_is_fifo [Inhabited T] (policy : OverflowPolicy) (cs : List (QueueCall T)) :
    ∃ (q : BoundedQueue T N policy) (f : Fifo T) (rs : List (QueueResult T)),
      run policy cs = (q, rs) ∧ fifoRun N policy cs = (f, rs) ∧
      -- its indices
      (q.size ≤ N ∧ q.head < N ∧ q.tail < N ∧ q.tail = (q.head + q.size) % N) ∧
      -- its contents, in the order of the pushes
      (q.items = f.contents ∧ q.size = q.items.length ∧
        (rs.filterMap QueueResult.takes ++ q.items).Sublist (cs.filterMap QueueCall.offers)) ∧
      -- the next call
      (q.pop.map Prod.fst = q.items.head? ∧
        (∀ item q', q.pop = some (item, q') → q.items = item :: q'.items) ∧
        ∀ item,
          ((q.push item).2 = false ↔ policy ≠ .dropOldest ∧ q.size = N) ∧
          (q.push item).1.items =
            if q.size < N then q.items ++ [item]
            else if policy = .dropOldest then q.items.tail ++ [item] else q.items) ∧
      -- its counters
      (q.droppedCount = UInt32.ofNat f.discarded.length ∧ q.overflowEvents = q.droppedCount ∧
        (cs.filterMap QueueCall.offers).length
          = (rs.filterMap QueueResult.takes).length + q.items.length + f.discarded.length) := by
  have hstart : (empty : BoundedQueue T N policy).Refines {} :=
    ⟨items_empty, Fifo.accounts_empty, rfl, rfl, rfl⟩
  obtain ⟨hrefines, hresults⟩ := hstart.runCalls cs
  obtain ⟨hoffered, hpopped⟩ := history_runCalls (N := N) (evicts policy) {} cs
  rw [← hresults] at hpopped
  change (run (N := N) policy cs).1.Refines (fifoRun N policy cs).1 at hrefines
  change (fifoRun N policy cs).1.offered = cs.filterMap QueueCall.offers at hoffered
  change (fifoRun N policy cs).1.popped =
    (run (N := N) policy cs).2.filterMap QueueResult.takes at hpopped
  refine ⟨(run (N := N) policy cs).1, (fifoRun N policy cs).1, (run (N := N) policy cs).2, rfl,
    ?_, ?_, ?_, ?_, ?_⟩
  · exact Prod.ext rfl hresults.symm
  · exact ⟨size_le _, head_lt _, tail_lt _, tail_eq _⟩
  · refine ⟨hrefines.items, (length_items _).symm, ?_⟩
    have hsub := hrefines.accounts.inOrder
    rwa [hoffered, hpopped, ← hrefines.items] at hsub
  · refine ⟨pop_map_fst _, fun item q' hpop => (items_of_pop _ hpop).1, fun item => ⟨?_, ?_⟩⟩
    · exact push_snd_eq_false_iff _ item
    · have hle := (run (N := N) policy cs).1.size_le
      split
      · next hroom =>
          exact ((run (N := N) policy cs).1.items_push_of_room (Nat.ne_of_lt hroom) item).1
      · next hroom =>
        have hfull : (run (N := N) policy cs).1.size = N := by omega
        split
        · next hpolicy => exact items_push_of_evicts hpolicy hfull item
        · next hpolicy => exact items_push_of_keeps hpolicy hfull item
  · refine ⟨hrefines.droppedCount, hrefines.overflowEvents.trans hrefines.droppedCount.symm, ?_⟩
    have hcounted := hrefines.accounts.counted
    unfold Fifo.gone at hcounted
    rw [hoffered, hpopped, hrefines.cleared, ← hrefines.items] at hcounted
    rw [hcounted, List.length_nil]
    omega

/-- A queue for a single item that drops the oldest: of two pushes the second is there, and the
first is counted. -/
theorem run_is_fifo_one :
    ∃ (q : BoundedQueue ℕ 1 .dropOldest) (f : Fifo ℕ) (rs : List (QueueResult ℕ)),
      run .dropOldest [.push 5, .push 6] = (q, rs) ∧
        fifoRun 1 .dropOldest [.push 5, .push 6] = (f, rs) ∧
        q.items = f.contents ∧ q.droppedCount = UInt32.ofNat f.discarded.length := by
  obtain ⟨q, f, rs, hq, hf, -, hitems, -, hcounters⟩ :=
    run_is_fifo (N := 1) .dropOldest [QueueCall.push 5, .push 6]
  exact ⟨q, f, rs, hq, hf, hitems.1, hcounters.1⟩

end

end BoundedQueue

end MithAtomas
