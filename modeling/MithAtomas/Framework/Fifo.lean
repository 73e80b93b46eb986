import Mathlib

/-!
# Bounded queues with a history

What a bounded queue is for, apart from how it stores its items: the items come out in the order in
which they went in, and none of them is lost without being counted. `Fifo` is the contents together
with the fate of everything that was ever offered. A full queue either discards its oldest item for
the new one (`evicts`) or discards the new one.

`Accounts` is what every operation keeps: each item offered was popped, is held, or was discarded or
cleared, and what has been popped and what is held are in the order of the offers. A queue that
evicts, or is never full, holds the latest offers (`Latest`).
-/

variable {T : Type}

/-- A queue, oldest item first, and where the items offered to it have gone. -/
@[ext] structure Fifo (T : Type) where
  contents : List T := []
  offered : List T := []
  popped : List T := []
  discarded : List T := []
  cleared : List T := []
  deriving DecidableEq

namespace Fifo

variable (f : Fifo T)

/-- The new item goes behind the others. -/
def accept (x : T) : Fifo T :=
  { f with contents := f.contents ++ [x], offered := f.offered ++ [x] }

/-- The new item is discarded. -/
def refuse (x : T) : Fifo T :=
  { f with offered := f.offered ++ [x], discarded := f.discarded ++ [x] }

/-- The oldest item is discarded. -/
def evict : Fifo T :=
  { f with contents := f.contents.tail, discarded := f.discarded ++ f.contents.take 1 }

/-- An item is offered to a queue for `capacity` items; with whether it is taken. -/
def push (capacity : ℕ) (evicts : Bool) (x : T) : Fifo T × Bool :=
  if f.contents.length < capacity then (f.accept x, true)
  else if evicts then (f.evict.accept x, true)
  else (f.refuse x, false)

/-- The oldest item is taken out. -/
def pop : Fifo T :=
  { f with contents := f.contents.tail, popped := f.popped ++ f.contents.take 1 }

/-- All the items are thrown away. -/
def clear : Fifo T :=
  { f with contents := [], cleared := f.cleared ++ f.contents }

/-- The number of items that are gone. -/
def gone : ℕ :=
  f.popped.length + f.discarded.length + f.cleared.length

/-- **The account of the items.** -/
structure Accounts : Prop where
  /-- nobody overtakes -/
  inOrder : (f.popped ++ f.contents).Sublist f.offered
  /-- nothing is lost, and nothing comes from nowhere -/
  counted : f.offered.length = f.gone + f.contents.length

/-- The queue holds the latest of the items offered. -/
def Latest : Prop :=
  f.contents = f.offered.drop f.gone

variable {f} {capacity : ℕ} {evicts : Bool} {x : T}

theorem accounts_empty : ({} : Fifo T).Accounts :=
  ⟨List.Sublist.slnil, rfl⟩

theorem latest_empty : ({} : Fifo T).Latest := rfl

/-! ### Each operation on the contents -/

theorem take_one_append_tail (l : List T) : l.take 1 ++ l.tail = l := by
  cases l <;> rfl

theorem length_take_one_add (l : List T) : (l.take 1).length + l.tail.length = l.length := by
  rw [← List.length_append, take_one_append_tail]

@[simp] theorem contents_accept : (f.accept x).contents = f.contents ++ [x] := rfl

@[simp] theorem contents_evict : f.evict.contents = f.contents.tail := rfl

@[simp] theorem contents_pop : f.pop.contents = f.contents.tail := rfl

theorem push_of_room (h : f.contents.length < capacity) :
    f.push capacity evicts x = (f.accept x, true) :=
  if_pos h

theorem push_of_full (h : capacity ≤ f.contents.length) : f.push capacity evicts x
    = if evicts then (f.evict.accept x, true) else (f.refuse x, false) :=
  if_neg (not_lt.mpr h)

/-- A push offers the item, whatever becomes of it. -/
theorem offered_push : (f.push capacity evicts x).1.offered = f.offered ++ [x] := by
  unfold push
  split
  · rfl
  · split <;> rfl

theorem popped_push : (f.push capacity evicts x).1.popped = f.popped := by
  unfold push
  split
  · rfl
  · split <;> rfl

@[simp] theorem gone_accept : (f.accept x).gone = f.gone := rfl

theorem gone_evict : f.evict.gone = f.gone + (f.contents.take 1).length := by
  unfold gone evict
  simp only [List.length_append]
  omega

theorem gone_pop : f.pop.gone = f.gone + (f.contents.take 1).length := by
  unfold gone pop
  simp only [List.length_append]
  omega

theorem gone_clear : f.clear.gone = f.gone + f.contents.length := by
  unfold gone clear
  simp only [List.length_append]
  omega

/-- Pops in a row. -/
theorem contents_iterate_pop (f : Fifo T) (i : ℕ) : (pop^[i] f).contents = f.contents.drop i := by
  induction i with
  | zero => rfl
  | succ i ih =>
    rw [Function.iterate_succ_apply', contents_pop, ih, List.tail_drop]

/-! ### Each operation keeps the account -/

theorem Accounts.accept (h : f.Accounts) (x : T) : (f.accept x).Accounts := by
  refine ⟨?_, ?_⟩
  · show (f.popped ++ (f.contents ++ [x])).Sublist (f.offered ++ [x])
    rw [← List.append_assoc]
    exact h.inOrder.append_right [x]
  · show (f.offered ++ [x]).length = f.gone + (f.contents ++ [x]).length
    rw [List.length_append, List.length_append, h.counted]
    omega

theorem Accounts.refuse (h : f.Accounts) (x : T) : (f.refuse x).Accounts := by
  refine ⟨h.inOrder.trans (List.sublist_append_left _ _), ?_⟩
  show (f.offered ++ [x]).length
    = f.popped.length + (f.discarded ++ [x]).length + f.cleared.length + f.contents.length
  have hcounted := h.counted
  unfold gone at hcounted
  rw [List.length_append, List.length_append, hcounted]
  omega

theorem Accounts.evict (h : f.Accounts) : f.evict.Accounts := by
  refine ⟨?_, ?_⟩
  · exact ((List.tail_sublist f.contents).append_left f.popped).trans h.inOrder
  · show f.offered.length = f.evict.gone + f.contents.tail.length
    rw [gone_evict, h.counted, Nat.add_assoc, length_take_one_add]

theorem Accounts.pop (h : f.Accounts) : f.pop.Accounts := by
  refine ⟨?_, ?_⟩
  · show (f.popped ++ f.contents.take 1 ++ f.contents.tail).Sublist f.offered
    rw [List.append_assoc, take_one_append_tail]
    exact h.inOrder
  · show f.offered.length = f.pop.gone + f.contents.tail.length
    rw [gone_pop, h.counted, Nat.add_assoc, length_take_one_add]

theorem Accounts.clear (h : f.Accounts) : f.clear.Accounts := by
  refine ⟨?_, ?_⟩
  · show (f.popped ++ []).Sublist f.offered
    rw [List.append_nil]
    exact (List.sublist_append_left _ _).trans h.inOrder
  · show f.offered.length = f.clear.gone + 0
    rw [gone_clear, h.counted, Nat.add_zero]

/-- **A push keeps the account**, whether there is room or not. -/
theorem Accounts.push (h : f.Accounts) : (f.push capacity evicts x).1.Accounts := by
  unfold Fifo.push
  split
  · exact h.accept x
  · split
    · exact h.evict.accept x
    · exact h.refuse x

/-! ### The latest offers -/

theorem Latest.accept (h : f.Latest) (ha : f.Accounts) (x : T) : (f.accept x).Latest := by
  show f.contents ++ [x] = (f.offered ++ [x]).drop f.gone
  have hle : f.gone ≤ f.offered.length := by
    rw [ha.counted]
    exact Nat.le_add_right _ _
  rw [List.drop_append_of_le_length hle, ← h]

/-- Taking away from the front. -/
theorem Latest.tail (h : f.Latest) :
    f.contents.tail = f.offered.drop (f.gone + (f.contents.take 1).length) := by
  rw [← List.drop_drop, ← h]
  cases f.contents <;> rfl

theorem Latest.evict (h : f.Latest) : f.evict.Latest := by
  show f.contents.tail = f.offered.drop f.evict.gone
  rw [gone_evict]
  exact h.tail

theorem Latest.pop (h : f.Latest) : f.pop.Latest := by
  show f.contents.tail = f.offered.drop f.pop.gone
  rw [gone_pop]
  exact h.tail

theorem Latest.clear (ha : f.Accounts) : f.clear.Latest := by
  show [] = f.offered.drop f.clear.gone
  rw [gone_clear, ← ha.counted, List.drop_length]

/-- A queue that evicts goes on holding the latest offers. -/
theorem Latest.push (h : f.Latest) (ha : f.Accounts) : (f.push capacity true x).1.Latest := by
  unfold Fifo.push
  split
  · exact h.accept ha x
  · exact h.evict.accept ha.evict x

end Fifo
