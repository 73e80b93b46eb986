import MithAtomas.Framework.Ring

/-!
# Bounded queues

`include/mith/core/bounded_queue.h`: a ring buffer of `N` slots with an overflow policy. The
structure carries what the source's comments say of its indices, so a queue whose tail is not behind
its items cannot be built. `items` is what it holds, oldest first; `push` and `pop` are described
through it (`items_push`, `pop_eq`).
-/

namespace MithAtomas

open Ring

/-- `enum class OverflowPolicy`. -/
inductive OverflowPolicy where
  | dropOldest
  | dropNewest
  | faultTrigger
  deriving DecidableEq, Repr

structure BoundedQueue (T : Type) (N : ℕ) (policy : OverflowPolicy) where
  buffer : Vector T N
  head : ℕ
  tail : ℕ
  size : ℕ
  droppedCount : UInt32
  overflowEvents : UInt32
  head_lt : head < N
  size_le : size ≤ N
  tail_eq : tail = (head + size) % N
  deriving DecidableEq

namespace BoundedQueue

variable {T : Type} {N : ℕ} {policy : OverflowPolicy}

/-- `BoundedQueue{}`. -/
def empty [Inhabited T] [NeZero N] : BoundedQueue T N policy where
  buffer := Vector.replicate N default
  head := 0
  tail := 0
  size := 0
  droppedCount := 0
  overflowEvents := 0
  head_lt := Nat.pos_of_ne_zero (NeZero.ne N)
  size_le := Nat.zero_le N
  tail_eq := (Nat.zero_mod N).symm

/-- `next_index`. -/
def nextIndex (N i : ℕ) : ℕ :=
  (i + 1) % N

variable (q : BoundedQueue T N policy)

theorem tail_lt : q.tail < N := by
  rw [q.tail_eq]
  exact Nat.mod_lt _ (Nat.zero_lt_of_lt q.head_lt)

theorem nextIndex_head_lt : nextIndex N q.head < N :=
  Nat.mod_lt _ (Nat.zero_lt_of_lt q.head_lt)

/-- One slot further behind the items. -/
theorem nextIndex_tail : nextIndex N q.tail = (q.head + (q.size + 1)) % N := by
  rw [nextIndex, q.tail_eq, Nat.mod_add_mod, Nat.add_assoc]

/-- In a full queue the tail is the head. -/
theorem tail_of_full (h : q.size = N) : q.tail = q.head := by
  rw [q.tail_eq, h, Nat.add_mod_right, Nat.mod_eq_of_lt q.head_lt]

/-- `push`, with its result. -/
def push (item : T) : BoundedQueue T N policy × Bool :=
  if h : q.size = N then
    let q' := { q with
      overflowEvents := q.overflowEvents + 1
      droppedCount := q.droppedCount + 1 }
    if policy = .dropOldest then
      -- overwrite the head's slot, which is the tail's when full, and advance both
      ({ q' with
        buffer := q.buffer.set q.tail item q.tail_lt
        tail := nextIndex N q.tail
        head := nextIndex N q.head
        head_lt := q.nextIndex_head_lt
        tail_eq := by
          rw [nextIndex_tail, nextIndex, Nat.mod_add_mod, Nat.add_assoc, Nat.add_comm 1] },
        true)
    else (q', false)
  else
    ({ q with
      buffer := q.buffer.set q.tail item q.tail_lt
      tail := nextIndex N q.tail
      size := q.size + 1
      size_le := Nat.lt_of_le_of_ne q.size_le h
      tail_eq := q.nextIndex_tail }, true)

/-- `pop`: the oldest item and the queue without it, unless it is empty. -/
def pop : Option (T × BoundedQueue T N policy) :=
  if h : q.size = 0 then none
  else
    some (q.buffer.get ⟨q.head, q.head_lt⟩,
      { q with
        head := nextIndex N q.head
        size := q.size - 1
        head_lt := q.nextIndex_head_lt
        size_le := (Nat.sub_le _ _).trans q.size_le
        tail_eq := by
          rw [nextIndex, Nat.mod_add_mod, Nat.add_assoc, Nat.add_comm 1,
            Nat.sub_add_cancel (Nat.pos_of_ne_zero h)]
          exact q.tail_eq })

/-! ### Contents -/

section Items

variable [NeZero N]

/-- What the queue holds, oldest first. -/
def items : List T :=
  window q.buffer q.head q.size

@[simp] theorem length_items : q.items.length = q.size :=
  length_window _ _ _

@[simp] theorem items_empty [Inhabited T] : (empty : BoundedQueue T N policy).items = [] := rfl

/-- A queue with room takes the item. -/
theorem items_push_of_room (h : q.size ≠ N) (item : T) :
    (q.push item).1.items = q.items ++ [item] ∧ (q.push item).2 = true := by
  unfold push
  rw [dif_neg h]
  exact ⟨window_set _ _ _ q.tail_lt q.tail_eq (Nat.lt_of_le_of_ne q.size_le h) item, rfl⟩

/-- A full queue that drops the oldest item takes the new one in its place. -/
theorem items_push_dropOldest (q : BoundedQueue T N .dropOldest) (h : q.size = N) (item : T) :
    (q.push item).1.items = q.items.tail ++ [item] ∧ (q.push item).2 = true := by
  have hwindow := window_set_full q.buffer q.head q.tail_lt
    (by rw [q.tail_of_full h, Nat.mod_eq_of_lt q.head_lt]) item
  unfold push
  rw [dif_pos h, if_pos rfl]
  refine ⟨?_, rfl⟩
  show window (q.buffer.set q.tail item q.tail_lt) ((q.head + 1) % N) q.size
    = (window q.buffer q.head q.size).tail ++ [item]
  rw [window_mod, h]
  exact hwindow

/-- **A pop** gives the oldest item and leaves the others. -/
theorem items_of_pop {item : T} {q' : BoundedQueue T N policy} (h : q.pop = some (item, q')) :
    q.items = item :: q'.items ∧ q'.size + 1 = q.size := by
  unfold pop at h
  split at h
  · cases h
  · rename_i hne
    obtain ⟨n, hn⟩ : ∃ n, q.size = n + 1 := Nat.exists_eq_succ_of_ne_zero hne
    cases h
    refine ⟨?_, Nat.sub_add_cancel (Nat.pos_of_ne_zero hne)⟩
    have hslot : Fin.ofNat N q.head = ⟨q.head, q.head_lt⟩ :=
      Fin.ext (Nat.mod_eq_of_lt q.head_lt)
    unfold items
    show window q.buffer q.head q.size = _ :: window q.buffer (nextIndex N q.head) (q.size - 1)
    rw [nextIndex, window_mod, hn, window_succ, hslot]
    rfl

omit [NeZero N] in
/-- A pop fails on an empty queue only. -/
theorem pop_eq_none_iff : q.pop = none ↔ q.size = 0 := by
  unfold pop
  split <;> simp_all

end Items

end BoundedQueue

end MithAtomas
