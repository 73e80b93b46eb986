import MithAtomas.Behaviour.ActionValidatorSystem
import MithAtomas.Core.BoundedQueueFifo

/-!
# What becomes of an action

Actions are pushed to the queue, and a tick of `ActionValidatorSystem` drains it. `ActionHistory` is
the component together with the fate of everything that was ever pushed: accepted or refused by the
queue, popped by a tick, and then validated or rejected.

A tick is the loop's body on what it pops, item by item (`drain_eq_foldl`), and pops all there is
(`popAll_size`). `foldl_validate` says what the body makes of a list that fits the buffer, and the
queue holds no more than that. `actions_conserved` puts this together over any sequence of pushes
and ticks.
-/

namespace MithAtomas

/-! ### Draining a queue -/

namespace BoundedQueue

variable {T : Type} {N : ℕ} {policy : OverflowPolicy}

/-- What `n` pops take out, and the queue after them. -/
def popAll : ℕ → BoundedQueue T N policy → List T × BoundedQueue T N policy
  | 0, q => ([], q)
  | n + 1, q =>
    match q.pop with
    | none => ([], q)
    | some (item, q) => (item :: (popAll n q).1, (popAll n q).2)

/-- **As many pops as there are items** take out all of them, in order. -/
theorem popAll_size [NeZero N] {n : ℕ} {q : BoundedQueue T N policy} (hn : q.size = n) :
    (popAll n q).1 = q.items ∧ (popAll n q).2.size = 0 ∧
      (popAll n q).2.droppedCount = q.droppedCount := by
  induction n generalizing q with
  | zero =>
    refine ⟨?_, hn, rfl⟩
    exact (List.length_eq_zero_iff.mp (q.length_items.trans hn)).symm
  | succ n ih =>
    cases hpop : q.pop with
    | none =>
      rw [pop_eq_none_iff, hn] at hpop
      cases hpop
    | some popped =>
      obtain ⟨item, q'⟩ := popped
      obtain ⟨hitems, hsize⟩ := q.items_of_pop hpop
      obtain ⟨hall, hempty, hdropped⟩ := ih (q := q') (by omega)
      rw [popAll, hpop]
      refine ⟨?_, hempty, hdropped.trans (counters_pop hpop).1⟩
      rw [hitems]
      exact congrArg _ hall

theorem length_popAll_le (n : ℕ) (q : BoundedQueue T N policy) : (popAll n q).1.length ≤ n := by
  induction n generalizing q with
  | zero => exact le_rfl
  | succ n ih =>
    rw [popAll]
    cases q.pop with
    | none => exact Nat.zero_le _
    | some popped => exact Nat.succ_le_succ (ih popped.2)

end BoundedQueue

variable {F : Type}

namespace ActionValidatorSystem

variable {mask : PermissionMaskComponent} {tickCount : UInt64}

/-- The loop's body does not look at the queue. -/
theorem validate_queue (aq : ActionQueueComponent F) (sink : Option TraceSink)
    (queue : BoundedQueue (Action F) 8 .dropNewest) (a : Action F) :
    validate mask tickCount ({ aq with queue }, sink) a =
      ({ (validate mask tickCount (aq, sink) a).1 with queue },
        (validate mask tickCount (aq, sink) a).2) := by
  unfold validate
  by_cases ha : mask.allows a.type = true
  · by_cases hroom : aq.validatedCount.toNat < ActionQueueComponent.CAPACITY
    · simp only [ha, if_true, dif_pos hroom]
    · simp only [ha, if_true, dif_neg hroom]
  · simp only [ha, if_false, Bool.false_eq_true]

/-- **The loop** is its body on the items that are popped. -/
theorem drain_eq_foldl (n : ℕ) (aq : ActionQueueComponent F) (sink : Option TraceSink) :
    drain mask tickCount n (aq, sink) = (aq.queue.popAll n).1.foldl (validate mask tickCount)
      ({ aq with queue := (aq.queue.popAll n).2 }, sink) := by
  induction n generalizing aq sink with
  | zero => rfl
  | succ n ih =>
    rw [drain, BoundedQueue.popAll]
    cases hpop : aq.queue.pop with
    | none => rfl
    | some popped =>
      obtain ⟨a, queue⟩ := popped
      have hqueue : (validate mask tickCount ({ aq with queue }, sink) a).1.queue = queue :=
        queue_validate _ a
      have hrest := ih (validate mask tickCount ({ aq with queue }, sink) a).1
        (validate mask tickCount ({ aq with queue }, sink) a).2
      rw [hqueue] at hrest
      refine hrest.trans ?_
      rw [List.foldl_cons]
      exact congrArg (fun work => (queue.popAll n).1.foldl (validate mask tickCount) work)
        (validate_queue { aq with queue } sink (queue.popAll n).2 a).symm

/-- The actions that a mask does not let through. -/
def refusedBy (mask : PermissionMaskComponent) (as : List (Action F)) : List (Action F) :=
  as.filter fun a => ¬ mask.allows a.type

theorem length_allowed_add_refused (mask : PermissionMaskComponent) (as : List (Action F)) :
    (mask.allowed as).length + (refusedBy mask as).length = as.length := by
  have h := List.length_eq_length_filter_add (l := as) fun a => mask.allows a.type
  unfold PermissionMaskComponent.allowed refusedBy
  rw [h]
  simp

theorem queue_foldl_validate (items : List (Action F)) (work : Work F) :
    (items.foldl (validate mask tickCount) work).1.queue = work.1.queue := by
  induction items generalizing work with
  | nil => rfl
  | cons a items ih => rw [List.foldl_cons, ih, queue_validate]

/-- The counters of the loop's body, if the buffer has room. -/
theorem counters_validate (work : Work F)
    (hroom : work.1.validatedCount.toNat < ActionQueueComponent.CAPACITY) (a : Action F) :
    (validate mask tickCount work a).1.validatedCount.toNat
        = work.1.validatedCount.toNat + (mask.allowed [a]).length ∧
      (validate mask tickCount work a).1.permissionRejectionsTotal
        = work.1.permissionRejectionsTotal + UInt32.ofNat (refusedBy mask [a]).length := by
  obtain ⟨aq, sink⟩ := work
  change aq.validatedCount.toNat < 8 at hroom
  unfold validate PermissionMaskComponent.allowed refusedBy
  by_cases ha : mask.allows a.type = true
  · have hsucc : (aq.validatedCount + 1).toNat = aq.validatedCount.toNat + 1 := by
      rw [UInt8.toNat_add]
      exact Nat.mod_eq_of_lt (show aq.validatedCount.toNat + 1 < 2 ^ 8 by omega)
    simp [ha, hroom, hsucc]
  · simp [ha]

variable (mask tickCount) in
/-- **A list that fits the buffer**: what the mask allows goes to the buffer's end, the rest is
counted, and there is room for every action when its turn comes. -/
theorem foldl_validate (items : List (Action F)) (work : Work F)
    (hroom : work.1.validatedCount.toNat + items.length ≤ ActionQueueComponent.CAPACITY) :
    (items.foldl (validate mask tickCount) work).1.validatedActions
        = work.1.validatedActions ++ mask.allowed items ∧
      (items.foldl (validate mask tickCount) work).1.validatedCount.toNat
        = work.1.validatedCount.toNat + (mask.allowed items).length ∧
      (items.foldl (validate mask tickCount) work).1.permissionRejectionsTotal
        = work.1.permissionRejectionsTotal + UInt32.ofNat (refusedBy mask items).length := by
  induction items generalizing work with
  | nil =>
    refine ⟨(List.append_nil _).symm, rfl, ?_⟩
    exact (UInt32.add_zero _).symm
  | cons a items ih =>
    rw [List.length_cons] at hroom
    -- there is room for this action, as there is for all of them
    have hcount : work.1.validatedCount.toNat < ActionQueueComponent.CAPACITY := by omega
    have hbuffer : (validate mask tickCount work a).1.validatedActions
        = work.1.validatedActions ++ mask.allowed [a] :=
      (validatedActions_validate work.1 work.2 hcount a).1
    have hvalidated : (validate mask tickCount work a).1.validatedCount.toNat
        = work.1.validatedCount.toNat + (mask.allowed [a]).length :=
      (counters_validate work hcount a).1
    have hrejected : (validate mask tickCount work a).1.permissionRejectionsTotal
        = work.1.permissionRejectionsTotal + UInt32.ofNat (refusedBy mask [a]).length :=
      (counters_validate work hcount a).2
    have hone : (mask.allowed [a]).length ≤ 1 := List.length_filter_le _ _
    obtain ⟨hbuffer', hvalidated', hrejected'⟩ := ih (validate mask tickCount work a) (by omega)
    have hallowed : mask.allowed (a :: items) = mask.allowed [a] ++ mask.allowed items :=
      List.filter_append [a] items
    have hrefused : refusedBy mask (a :: items) = refusedBy mask [a] ++ refusedBy mask items :=
      List.filter_append [a] items
    rw [List.foldl_cons, hallowed, hrefused, List.length_append, List.length_append,
      UInt32.ofNat_add]
    refine ⟨?_, ?_, ?_⟩
    · rw [hbuffer', hbuffer, List.append_assoc]
    · rw [hvalidated', hvalidated, Nat.add_assoc]
    · rw [hrejected', hrejected, UInt32.add_assoc]

/-- What the loop starts from: the queue as it is, and no validated action. -/
def drainStart (aq : ActionQueueComponent F) (sink : Option TraceSink) : Work F :=
  ({ aq with validatedCount := 0 }, sink)

/-- **The guard of the loop** holds at every turn: when an action has been popped, the buffer has
room. -/
theorem validatedCount_drain_lt (aq : ActionQueueComponent F) (sink : Option TraceSink) {k : ℕ}
    (hk : k < aq.queue.size) :
    (drain mask tickCount k (drainStart aq sink)).1.validatedCount.toNat
      < ActionQueueComponent.CAPACITY := by
  have hsize : aq.queue.size ≤ 8 := aq.queue.size_le
  have hpopped := aq.queue.length_popAll_le k
  have hallowed : (mask.allowed (aq.queue.popAll k).1).length ≤ (aq.queue.popAll k).1.length :=
    List.length_filter_le _ _
  obtain ⟨-, hcount, -⟩ := foldl_validate mask tickCount (aq.queue.popAll k).1
    ({ aq with queue := (aq.queue.popAll k).2, validatedCount := 0 }, sink)
    (show 0 + _ ≤ 8 by omega)
  rw [drainStart, drain_eq_foldl, hcount]
  show 0 + _ < 8
  omega

variable (mask tickCount) in
/-- **A tick**, account included. -/
theorem tick_counts (aq : ActionQueueComponent F) (sink : Option TraceSink) :
    (tick mask tickCount aq sink).1.validatedCount.toNat = (mask.allowed aq.queue.items).length ∧
      (tick mask tickCount aq sink).1.permissionRejectionsTotal
        = aq.permissionRejectionsTotal + UInt32.ofNat (refusedBy mask aq.queue.items).length ∧
      (tick mask tickCount aq sink).1.queue.droppedCount = aq.queue.droppedCount := by
  obtain ⟨hall, -, hdropped⟩ := BoundedQueue.popAll_size (q := aq.queue) rfl
  have hlength : aq.queue.items.length ≤ 8 := aq.queue.length_items.trans_le aq.queue.size_le
  obtain ⟨-, hcount, hrejected⟩ := foldl_validate mask tickCount aq.queue.items
    ({ aq with queue := (aq.queue.popAll aq.queue.size).2, validatedCount := 0 }, sink)
    (show 0 + _ ≤ 8 by omega)
  have htick : tick mask tickCount aq sink = aq.queue.items.foldl (validate mask tickCount)
      ({ aq with queue := (aq.queue.popAll aq.queue.size).2, validatedCount := 0 }, sink) := by
    rw [← hall]
    exact drain_eq_foldl aq.queue.size { aq with validatedCount := 0 } sink
  rw [htick]
  refine ⟨hcount.trans (Nat.zero_add _), hrejected, ?_⟩
  rw [queue_foldl_validate]
  exact hdropped

end ActionValidatorSystem

/-! ### The history -/

/-- What happens to the action queue. -/
inductive ActionEvent (F : Type) where
  | push (a : Action F)
  /-- a tick of `ActionValidatorSystem`, under the mask there is -/
  | tick (mask : PermissionMaskComponent) (tickCount : UInt64)

/-- The component, and where the actions have gone. -/
structure ActionHistory (F : Type) where
  aq : ActionQueueComponent F
  sink : Option TraceSink
  /-- the pushes that returned `true` -/
  accepted : List (Action F) := []
  popped : List (Action F) := []
  /-- what the ticks have left in `validated[]` -/
  validated : List (Action F) := []

namespace ActionHistory

open ActionValidatorSystem

def next (h : ActionHistory F) : ActionEvent F → ActionHistory F
  | .push a =>
    { h with
      aq := { h.aq with queue := (h.aq.queue.push a).1 }
      accepted := if (h.aq.queue.push a).2 then h.accepted ++ [a] else h.accepted }
  | .tick mask tickCount =>
    let work := ActionValidatorSystem.tick mask tickCount h.aq h.sink
    { h with
      aq := work.1
      sink := work.2
      popped := h.popped ++ (h.aq.queue.popAll h.aq.queue.size).1
      validated := h.validated ++ work.1.validatedActions }

/-- The history of a component from its construction. -/
def run [Zero F] (sink : Option TraceSink) (es : List (ActionEvent F)) : ActionHistory F :=
  es.foldl next { aq := .empty, sink }

/-- The number of pushes. -/
def pushes (es : List (ActionEvent F)) : ℕ :=
  es.countP fun
    | .push _ => true
    | .tick _ _ => false

/-- **The account of the actions**, `n` of which have been pushed. -/
structure Conserves (h : ActionHistory F) (n : ℕ) : Prop where
  /-- nobody is popped twice, or overtaken -/
  inOrder : h.popped ++ h.aq.queue.items = h.accepted
  validatedCount_le : h.aq.validatedCount.toNat ≤ ActionQueueComponent.CAPACITY
  counted : UInt32.ofNat n = UInt32.ofNat h.validated.length + h.aq.permissionRejectionsTotal
    + h.aq.queue.droppedCount + UInt32.ofNat h.aq.queue.size

/-- **What a tick does** to the history `h`, which is `h'` afterwards. -/
structure Drains (mask : PermissionMaskComponent) (tickCount : UInt64) (h h' : ActionHistory F) :
    Prop where
  popped : h'.popped = h.popped ++ h.aq.queue.items
  /-- no accepted action waits any longer -/
  all : h'.popped = h'.accepted
  buffer : h'.aq.validatedActions = mask.allowed h.aq.queue.items
  validated : h'.validated = h.validated ++ h'.aq.validatedActions
  validatedCount : h'.aq.validatedCount.toNat = (mask.allowed h.aq.queue.items).length
  rejected : h'.aq.permissionRejectionsTotal = h.aq.permissionRejectionsTotal
    + UInt32.ofNat (refusedBy mask h.aq.queue.items).length
  /-- the loop's guard, at each of its turns -/
  guard : ∀ k < h.aq.queue.size,
    (drain mask tickCount k (drainStart h.aq h.sink)).1.validatedCount.toNat
      < ActionQueueComponent.CAPACITY

/-- A push is accepted unless the queue is full. -/
theorem accepted_push (h : ActionHistory F) (a : Action F) :
    (h.next (.push a)).accepted
      = if h.aq.queue.size = 8 then h.accepted else h.accepted ++ [a] := by
  by_cases hfull : h.aq.queue.size = 8
  · have hrefused : (h.aq.queue.push a).2 = false :=
      (h.aq.queue.push_snd_eq_false_iff a).mpr ⟨nofun, hfull⟩
    rw [if_pos hfull]
    exact if_neg (ne_true_of_eq_false hrefused)
  · rw [if_neg hfull]
    exact if_pos (h.aq.queue.items_push_of_room hfull a).2

theorem Conserves.push {h : ActionHistory F} {n : ℕ} (hc : h.Conserves n) (a : Action F) :
    (h.next (.push a)).Conserves (n + 1) := by
  by_cases hfull : h.aq.queue.size = 8
  · -- the queue refuses the action, and counts it
    have hkeeps : OverflowPolicy.dropNewest ≠ .dropOldest := nofun
    have hrefused : (h.aq.queue.push a).2 = false :=
      (h.aq.queue.push_snd_eq_false_iff a).mpr ⟨hkeeps, hfull⟩
    have hitems := BoundedQueue.items_push_of_keeps hkeeps hfull a
    have hsize : (h.aq.queue.push a).1.size = h.aq.queue.size := by
      rw [← BoundedQueue.length_items, hitems, BoundedQueue.length_items]
    have hdropped := (BoundedQueue.counters_push_of_full hfull a).1
    refine ⟨?_, hc.validatedCount_le, ?_⟩
    · show h.popped ++ (h.aq.queue.push a).1.items
        = if (h.aq.queue.push a).2 then h.accepted ++ [a] else h.accepted
      rw [hitems, hrefused]
      exact hc.inOrder
    · show UInt32.ofNat (n + 1) = UInt32.ofNat h.validated.length + h.aq.permissionRejectionsTotal
        + (h.aq.queue.push a).1.droppedCount + UInt32.ofNat (h.aq.queue.push a).1.size
      rw [hdropped, hsize, UInt32.ofNat_add, hc.counted, UInt32.ofNat_one]
      ac_rfl
  · obtain ⟨hitems, haccepted⟩ := h.aq.queue.items_push_of_room hfull a
    have hsize : (h.aq.queue.push a).1.size = h.aq.queue.size + 1 := by
      rw [← BoundedQueue.length_items, hitems, List.length_append, BoundedQueue.length_items]
      rfl
    have hdropped := (BoundedQueue.counters_push_of_room hfull a).1
    refine ⟨?_, hc.validatedCount_le, ?_⟩
    · show h.popped ++ (h.aq.queue.push a).1.items
        = if (h.aq.queue.push a).2 then h.accepted ++ [a] else h.accepted
      rw [hitems, haccepted, if_pos rfl, ← List.append_assoc, hc.inOrder]
    · show UInt32.ofNat (n + 1) = UInt32.ofNat h.validated.length + h.aq.permissionRejectionsTotal
        + (h.aq.queue.push a).1.droppedCount + UInt32.ofNat (h.aq.queue.push a).1.size
      rw [hdropped, hsize, UInt32.ofNat_add, UInt32.ofNat_add, hc.counted, UInt32.ofNat_one]
      ac_rfl

theorem Conserves.tick {h : ActionHistory F} {n : ℕ} (hc : h.Conserves n)
    (mask : PermissionMaskComponent) (tickCount : UInt64) :
    (h.next (.tick mask tickCount)).Conserves n := by
  have hbuffer : (ActionValidatorSystem.tick mask tickCount h.aq h.sink).1.validatedActions
      = mask.allowed h.aq.queue.items := (tick_spec h.aq h.sink).1
  have hempty : (ActionValidatorSystem.tick mask tickCount h.aq h.sink).1.queue.size = 0 :=
    (tick_spec h.aq h.sink).2
  obtain ⟨hcount, hrejected, hdropped⟩ := tick_counts mask tickCount h.aq h.sink
  obtain ⟨hall, -, -⟩ := BoundedQueue.popAll_size (q := h.aq.queue) rfl
  have hsplit := length_allowed_add_refused mask h.aq.queue.items
  rw [BoundedQueue.length_items] at hsplit
  refine ⟨?_, ?_, ?_⟩
  · show h.popped ++ (h.aq.queue.popAll h.aq.queue.size).1
      ++ (ActionValidatorSystem.tick mask tickCount h.aq h.sink).1.queue.items = h.accepted
    have hnil : (ActionValidatorSystem.tick mask tickCount h.aq h.sink).1.queue.items = [] :=
      List.length_eq_zero_iff.mp ((BoundedQueue.length_items _).trans hempty)
    rw [hall, hnil, List.append_nil]
    exact hc.inOrder
  · show (ActionValidatorSystem.tick mask tickCount h.aq h.sink).1.validatedCount.toNat ≤ 8
    have hsize : h.aq.queue.size ≤ 8 := h.aq.queue.size_le
    omega
  · show UInt32.ofNat n
      = UInt32.ofNat (h.validated
          ++ (ActionValidatorSystem.tick mask tickCount h.aq h.sink).1.validatedActions).length
        + (ActionValidatorSystem.tick mask tickCount h.aq h.sink).1.permissionRejectionsTotal
        + (ActionValidatorSystem.tick mask tickCount h.aq h.sink).1.queue.droppedCount
        + UInt32.ofNat (ActionValidatorSystem.tick mask tickCount h.aq h.sink).1.queue.size
    -- what was queued is now validated or rejected
    rw [hbuffer, hrejected, hdropped, hempty, hc.counted, ← hsplit, List.length_append,
      UInt32.ofNat_add, UInt32.ofNat_add, show UInt32.ofNat 0 = 0 from rfl, UInt32.add_zero]
    ac_rfl

theorem conserves_run [Zero F] (sink : Option TraceSink) (es : List (ActionEvent F)) :
    (run sink es).Conserves (pushes es) := by
  induction es using List.reverseRecOn with
  | nil => exact ⟨rfl, Nat.zero_le _, rfl⟩
  | append_singleton es e ih =>
    unfold run pushes at ih ⊢
    rw [List.foldl_append, List.countP_append]
    cases e with
    | push a => exact ih.push a
    | tick mask tickCount => exact ih.tick mask tickCount

/-- **A tick drains the queue**, if nobody has been lost so far. -/
theorem Conserves.drains {h : ActionHistory F} {n : ℕ} (hc : h.Conserves n)
    (mask : PermissionMaskComponent) (tickCount : UInt64) :
    Drains mask tickCount h (h.next (.tick mask tickCount)) := by
  have hbuffer : (ActionValidatorSystem.tick mask tickCount h.aq h.sink).1.validatedActions
      = mask.allowed h.aq.queue.items := (tick_spec h.aq h.sink).1
  have hempty : (ActionValidatorSystem.tick mask tickCount h.aq h.sink).1.queue.size = 0 :=
    (tick_spec h.aq h.sink).2
  obtain ⟨hcount, hrejected, -⟩ := tick_counts mask tickCount h.aq h.sink
  have hnil : (h.next (.tick mask tickCount)).aq.queue.items = [] :=
    List.length_eq_zero_iff.mp ((BoundedQueue.length_items _).trans hempty)
  have hall : (h.next (.tick mask tickCount)).popped
      = (h.next (.tick mask tickCount)).accepted := by
    have hinOrder := (hc.tick mask tickCount).inOrder
    rwa [hnil, List.append_nil] at hinOrder
  exact {
    popped := congrArg (h.popped ++ ·) (BoundedQueue.popAll_size rfl).1
    all := hall
    buffer := hbuffer
    validated := rfl
    validatedCount := hcount
    rejected := hrejected
    guard := fun k hk => validatedCount_drain_lt h.aq h.sink hk }

end ActionHistory

open ActionHistory in
/-- **Actions are conserved.** After any pushes and ticks, under any masks: what was accepted has
been popped, in order, or is queued, and the counters add up to the number of pushes. A push is
accepted unless the queue is full. The next tick pops all that is queued; it leaves in `validated[]`
what its mask allows, counts the rest, and finds room at every turn of its loop. -/
theorem actions_conserved [Zero F] (sink : Option TraceSink) (es : List (ActionEvent F)) :
    (ActionHistory.run sink es).Conserves (pushes es) ∧
      (∀ a, (ActionHistory.run sink (es ++ [.push a])).accepted
        = if (ActionHistory.run sink es).aq.queue.size = 8 then (ActionHistory.run sink es).accepted
          else (ActionHistory.run sink es).accepted ++ [a]) ∧
      ∀ mask tickCount, Drains mask tickCount (ActionHistory.run sink es)
        (ActionHistory.run sink (es ++ [.tick mask tickCount])) := by
  have hnext : ∀ e, ActionHistory.run sink (es ++ [e]) = (ActionHistory.run sink es).next e :=
    fun e => List.foldl_concat _ _ _ _
  have hc := conserves_run sink es
  refine ⟨hc, ?_, ?_⟩
  · intro a
    rw [hnext]
    exact accepted_push _ a
  · intro mask tickCount
    rw [hnext]
    exact hc.drains mask tickCount

end MithAtomas
