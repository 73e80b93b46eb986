import MithAtomas.Comms.BeaconSystem
import MithAtomas.Core.BoundedQueueFifo

/-!
# Where a message goes

The fourth step of `BeaconSystem::tick`, for handlers of any kind. To see which handlers are asked,
they are watched: a watched handler notes every call in a log that it carries along with its own
state, and does what it did before. `offer_watchFrom` is one message: the handlers are asked in
order, up to the first that claims it. `foldl_route` is a batch.

What is left goes to the mission's queue, which keeps the last 16 (`items_foldl_push`).
-/

namespace MithAtomas

/-! ### A queue that drops the oldest item -/

namespace BoundedQueue

variable {T : Type} {N : ℕ} [NeZero N]

omit [NeZero N] in
/-- Of the last `n` items, and some more, the last `n`. -/
theorem rtake_rtake_append (n : ℕ) (l l' : List T) :
    (l.rtake n ++ l').rtake n = (l ++ l').rtake n := by
  simp only [List.rtake_eq_reverse_take_reverse, List.reverse_append, List.reverse_reverse,
    List.take_append, List.take_take, min_eq_left (Nat.sub_le n _)]

/-- **One push.** -/
theorem push_dropOldest (q : BoundedQueue T N .dropOldest) (x : T) :
    (q.push x).1.items = (q.items ++ [x]).rtake N ∧
      (q.push x).1.droppedCount = q.droppedCount + UInt32.ofNat (q.size + 1 - N) := by
  have hle := q.size_le
  unfold List.rtake
  rw [List.length_append, length_items, List.length_singleton]
  by_cases hfull : q.size = N
  · have hpos := Nat.pos_of_ne_zero (NeZero.ne N)
    obtain ⟨y, ys, hitems⟩ : ∃ y ys, q.items = y :: ys :=
      List.exists_cons_of_length_pos (by rw [length_items]; omega)
    have hone : q.size + 1 - N = 1 := by omega
    rw [items_push_of_evicts rfl hfull, (counters_push_of_full hfull x).1, hone, hitems]
    exact ⟨rfl, rfl⟩
  · have hnone : q.size + 1 - N = 0 := by omega
    rw [(q.items_push_of_room hfull x).1, (counters_push_of_room hfull x).1, hnone]
    exact ⟨rfl, (UInt32.add_zero _).symm⟩

/-- **Pushes in a row** leave the last `N`, and count the others. -/
theorem items_foldl_push (q : BoundedQueue T N .dropOldest) (xs : List T) :
    (xs.foldl (fun q x => (q.push x).1) q).items = (q.items ++ xs).rtake N ∧
      (xs.foldl (fun q x => (q.push x).1) q).droppedCount
        = q.droppedCount + UInt32.ofNat (q.size + xs.length - N) := by
  induction xs generalizing q with
  | nil =>
    have hfits : q.size - N = 0 := Nat.sub_eq_zero_of_le q.size_le
    have hall : q.items.length - N = 0 := by rw [length_items, hfits]
    refine ⟨?_, ?_⟩
    · rw [List.append_nil, List.rtake, hall]
      rfl
    · show _ = _ + UInt32.ofNat (q.size - N)
      rw [hfits]
      exact (UInt32.add_zero _).symm
  | cons x xs ih =>
    obtain ⟨hitems, hdropped⟩ := q.push_dropOldest x
    obtain ⟨hrest, hcount⟩ := ih (q.push x).1
    have hsize : (q.push x).1.size = min (q.size + 1) N := by
      rw [← length_items, hitems, List.rtake, List.length_drop, List.length_append, length_items,
        List.length_singleton]
      omega
    refine ⟨?_, ?_⟩
    · rw [List.foldl_cons, hrest, hitems, rtake_rtake_append, List.append_assoc,
        List.singleton_append]
    · -- what this push drops, and what the others do
      have hsum : (q.size + 1 - N) + ((q.push x).1.size + xs.length - N)
          = q.size + (x :: xs).length - N := by
        rw [hsize, List.length_cons]
        omega
      rw [List.foldl_cons, hcount, hdropped, ← hsum, UInt32.ofNat_add, UInt32.add_assoc]

end BoundedQueue

/-! ### Watched handlers -/

/-- A handler has been asked, and this is its answer. -/
structure HandlerCall (F : Type) where
  handler : ℕ
  message : Message F
  claimed : Bool

variable {F σ : Type}

/-- The handler number `i`, with a log. -/
def watched (i : ℕ) (h : σ → Message F → σ × Bool) (work : σ × List (HandlerCall F))
    (m : Message F) :
    (σ × List (HandlerCall F)) × Bool :=
  let (s, claimed) := h work.1 m
  ((s, work.2 ++ [⟨i, m, claimed⟩]), claimed)

/-- Handlers, numbered from `i` on. -/
def watchFrom (i : ℕ) : List (σ → Message F → σ × Bool) →
    List (σ × List (HandlerCall F) → Message F → (σ × List (HandlerCall F)) × Bool)
  | [] => []
  | h :: hs => watched i h :: watchFrom (i + 1) hs

/-- The handlers `i`, ..., `i + n - 1` are asked in order, up to the first that claims the
message. -/
def Offered (i n : ℕ) (m : Message F) (calls : List (HandlerCall F)) : Prop :=
  calls = (List.range' i n).map (fun k => ⟨k, m, false⟩) ∨
    ∃ j < n, calls = (List.range' i j).map (fun k => ⟨k, m, false⟩) ++ [⟨i + j, m, true⟩]

/-- Somebody has claimed the message. -/
def claims (calls : List (HandlerCall F)) : Bool :=
  calls.any HandlerCall.claimed

/-- **One message.** Watching changes nothing. -/
theorem offer_watchFrom (hs : List (σ → Message F → σ × Bool)) (i : ℕ) (s : σ)
    (log : List (HandlerCall F)) (m : Message F) : ∃ calls, Offered i hs.length m calls ∧
      claims calls = (offer hs s m).2 ∧
      offer (watchFrom i hs) (s, log) m
        = (((offer hs s m).1, log ++ calls), (offer hs s m).2) := by
  induction hs generalizing i s log with
  | nil => exact ⟨[], .inl rfl, rfl, congrArg (fun l => ((s, l), false)) (List.append_nil log).symm⟩
  | cons h hs ih =>
    cases hclaimed : (h s m).2 with
    | true =>
      refine ⟨[⟨i, m, true⟩], .inr ⟨0, Nat.succ_pos _, rfl⟩, ?_, ?_⟩
      · simp [claims, offer, hclaimed]
      · simp [offer, watchFrom, watched, hclaimed]
    | false =>
      -- not claimed: logged, and offered to the next handler
      obtain ⟨calls, hoffered, hclaims, hrest⟩ := ih (i + 1) (h s m).1 (log ++ [⟨i, m, false⟩])
      have hoffer : offer (h :: hs) s m = offer hs (h s m).1 m := by simp [offer, hclaimed]
      refine ⟨⟨i, m, false⟩ :: calls, ?_, ?_, ?_⟩
      · rcases hoffered with rfl | ⟨j, hj, rfl⟩
        · exact .inl rfl
        · refine .inr ⟨j + 1, Nat.succ_lt_succ hj, ?_⟩
          rw [List.range'_succ, Nat.add_right_comm]
          rfl
      · rw [hoffer]
        exact hclaims
      · rw [hoffer]
        simpa [offer, watchFrom, watched, hclaimed] using hrest

/-! ### Batches -/

/-- What `route` does to the queue. -/
theorem route_eq (hs : List (σ → Message F → σ × Bool)) (s : σ) (cb : CommBufferComponent F)
    (m : Message F) : route hs (s, cb) m
      = ((offer hs s m).1,
          if (offer hs s m).2 then cb else { cb with queue := (cb.queue.push m).1 }) := by
  unfold route
  cases hclaimed : (offer hs s m).2 <;> simp [hclaimed]

/-- The messages that nobody has claimed. -/
def unclaimed (ms : List (Message F)) (offers : List (List (HandlerCall F))) : List (Message F) :=
  ((ms.zip offers).filter fun offer => !claims offer.2).map Prod.fst

/-- **A batch**: every message is offered once, and pushed once if nobody has claimed it. -/
theorem foldl_route (hs : List (σ → Message F → σ × Bool)) (s : σ) (log : List (HandlerCall F))
    (cb : CommBufferComponent F) (ms : List (Message F)) : ∃ offers,
      List.Forall₂ (Offered 0 hs.length) ms offers ∧
      ms.foldl (route (watchFrom 0 hs)) ((s, log), cb)
        = (((ms.foldl (route hs) (s, cb)).1, log ++ offers.flatten),
          (ms.foldl (route hs) (s, cb)).2) ∧
      (ms.foldl (route hs) (s, cb)).2.queue
        = (unclaimed ms offers).foldl (fun q m => (q.push m).1) cb.queue := by
  induction ms generalizing s log cb with
  | nil =>
    refine ⟨[], .nil, ?_, rfl⟩
    exact congrArg (fun l => ((s, l), cb)) (List.append_nil log).symm
  | cons m ms ih =>
    obtain ⟨calls, hoffered, hclaims, hwatched⟩ := offer_watchFrom hs 0 s log m
    let cb' : CommBufferComponent F :=
      if (offer hs s m).2 then cb else { cb with queue := (cb.queue.push m).1 }
    have hroute : route hs (s, cb) m = ((offer hs s m).1, cb') := route_eq hs s cb m
    have hroute' : route (watchFrom 0 hs) ((s, log), cb) m
        = (((offer hs s m).1, log ++ calls), cb') := by
      rw [route_eq, hwatched]
    obtain ⟨offers, hrest, hrun, hqueue⟩ := ih (offer hs s m).1 (log ++ calls) cb'
    refine ⟨calls :: offers, .cons hoffered hrest, ?_, ?_⟩
    · rw [List.foldl_cons, List.foldl_cons, hroute, hroute', hrun, List.flatten_cons,
        List.append_assoc]
    · rw [List.foldl_cons, hroute, hqueue]
      unfold unclaimed
      rw [List.zip_cons_cons]
      -- a message that no handler claims goes to the queue
      cases hclaimed : (offer hs s m).2 with
      | true =>
        have hkeep : cb' = cb := if_pos hclaimed
        rw [List.filter_cons_of_neg (by simp [hclaims, hclaimed]), hkeep]
      | false =>
        have hpush : cb' = { cb with queue := (cb.queue.push m).1 } :=
          if_neg (ne_true_of_eq_false hclaimed)
        rw [List.filter_cons_of_pos (by simp [hclaims, hclaimed]), List.map_cons, List.foldl_cons,
          hpush]

/-! ### Handlers that may be empty -/

/-- `for (const auto& h : hs) if (h && h(m)) { claimed = true; break; }`, with `claimed`; a
`std::function` may be empty. -/
def offerEach (handlers : List (Option (σ → Message F → σ × Bool))) (s : σ) (m : Message F) :
    σ × Bool :=
  match handlers with
  | [] => (s, false)
  | none :: hs => offerEach hs s m
  | some h :: hs =>
    let (s, claimed) := h s m
    if claimed then (s, true) else offerEach hs s m

def routeEach (handlers : List (Option (σ → Message F → σ × Bool)))
    (work : σ × CommBufferComponent F) (m : Message F) : σ × CommBufferComponent F :=
  let (s, cb) := work
  let (s, claimed) := offerEach handlers s m
  if claimed then (s, cb) else (s, { cb with queue := (cb.queue.push m).1 })

/-- An empty function is not asked. -/
theorem offerEach_eq (handlers : List (Option (σ → Message F → σ × Bool))) (s : σ) (m : Message F) :
    offerEach handlers s m = offer handlers.reduceOption s m := by
  induction handlers generalizing s with
  | nil => rfl
  | cons handler handlers ih =>
    cases handler with
    | none =>
      rw [List.reduceOption_cons_of_none]
      exact ih s
    | some h =>
      rw [List.reduceOption_cons_of_some]
      unfold offerEach offer
      simp only [ih]

theorem routeEach_eq (handlers : List (Option (σ → Message F → σ × Bool))) :
    routeEach handlers = route handlers.reduceOption := by
  funext work m
  unfold routeEach route
  simp only [offerEach_eq]

/-- **Message routing**, for any handlers, any contents of the queue and any batch. Watching the
handlers changes nothing and shows that each message is offered to them in order, up to the first
that claims it. The unclaimed messages are pushed, once each and in order; of the old contents and
these the queue keeps the last 16, and it counts the others. -/
theorem message_routing (handlers : List (Option (σ → Message F → σ × Bool))) (s : σ)
    (cb : CommBufferComponent F) (ms : List (Message F)) : ∃ offers,
      List.Forall₂ (Offered 0 handlers.reduceOption.length) ms offers ∧
      ms.foldl (route (watchFrom 0 handlers.reduceOption)) ((s, []), cb)
        = (((ms.foldl (routeEach handlers) (s, cb)).1, offers.flatten),
            (ms.foldl (routeEach handlers) (s, cb)).2) ∧
      (ms.foldl (routeEach handlers) (s, cb)).2.queue
        = (unclaimed ms offers).foldl (fun q m => (q.push m).1) cb.queue ∧
      (ms.foldl (routeEach handlers) (s, cb)).2.queue.items
        = (cb.queue.items ++ unclaimed ms offers).rtake 16 ∧
      (ms.foldl (routeEach handlers) (s, cb)).2.queue.droppedCount
        = cb.queue.droppedCount
          + UInt32.ofNat ((cb.queue.items ++ unclaimed ms offers).length - 16) := by
  obtain ⟨offers, hoffered, hrun, hqueue⟩ := foldl_route handlers.reduceOption s [] cb ms
  rw [routeEach_eq]
  obtain ⟨hitems, hdropped⟩ := cb.queue.items_foldl_push (unclaimed ms offers)
  refine ⟨offers, hoffered, hrun, hqueue, ?_, ?_⟩
  · rw [hqueue]
    exact hitems
  · rw [hqueue, List.length_append, BoundedQueue.length_items]
    exact hdropped

end MithAtomas
