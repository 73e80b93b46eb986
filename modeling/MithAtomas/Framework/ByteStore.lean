import MithAtomas.Framework.Ring

/-!
# Bytes in memory

A memory is a byte at each address. `store m a bytes` writes bytes at `a` and behind it, `load m a
n` reads `n` bytes from `a` on. What has been stored is what is loaded (`load_store`), also by the
bytes around it (`load_store_within`), and no other byte changes (`store_of_lt`, `store_of_ge`). A
store into what has been stored is one store (`store_store`).
-/

namespace ByteStore

open Ring

abbrev Memory := ℕ → UInt8

/-- `bytes` at the address `a` and behind it. -/
def store (m : Memory) (a : ℕ) (bytes : List UInt8) : Memory :=
  fun x => if x < a then m x else (bytes[x - a]?).getD (m x)

/-- `n` bytes from the address `a` on. -/
def load (m : Memory) (a n : ℕ) : List UInt8 :=
  (List.range n).map fun i => m (a + i)

variable {m : Memory} {a n : ℕ} {bytes : List UInt8}

@[simp] theorem length_load (m : Memory) (a n : ℕ) : (load m a n).length = n := by
  rw [load, List.length_map, List.length_range]

theorem store_of_lt {x : ℕ} (h : x < a) : store m a bytes x = m x :=
  if_pos h

theorem store_of_ge {x : ℕ} (h : a + bytes.length ≤ x) : store m a bytes x = m x := by
  unfold store
  rw [if_neg (by omega), List.getElem?_eq_none (by omega)]
  rfl

theorem getElem?_load {i : ℕ} (h : i < n) : (load m a n)[i]? = some (m (a + i)) := by
  unfold load
  rw [List.getElem?_map, List.getElem?_range h]
  rfl

theorem store_nil (m : Memory) (a : ℕ) : store m a [] = m := by
  funext x
  unfold store
  split <;> rfl

/-- **What has been stored is loaded.** -/
theorem load_store (m : Memory) (a : ℕ) (bytes : List UInt8) :
    load (store m a bytes) a bytes.length = bytes := by
  refine List.ext_getElem? fun i => ?_
  by_cases hi : i < bytes.length
  · rw [getElem?_load hi, List.getElem?_eq_getElem hi]
    unfold store
    rw [if_neg (by omega), Nat.add_sub_cancel_left, List.getElem?_eq_getElem hi]
    rfl
  · rw [List.getElem?_eq_none (by rw [length_load]; omega), List.getElem?_eq_none (by omega)]

/-- A store inside of what is loaded. -/
theorem load_store_within {k : ℕ} (h : k + bytes.length ≤ n) :
    load (store m (a + k) bytes) a n = splice (load m a n) k bytes := by
  refine List.ext_getElem? fun i => ?_
  rw [getElem?_splice (by rwa [length_load])]
  -- before the bytes, in them, behind them, and behind what is loaded
  by_cases hi : i < n
  · rw [getElem?_load hi, getElem?_load hi]
    unfold store
    split
    · next hlt => rw [if_pos (by omega)]
    · rw [if_neg (by omega), Nat.add_sub_add_left]
      split
      · next hin =>
        have hget : i - k < bytes.length := by omega
        rw [List.getElem?_eq_getElem hget]
        rfl
      · next hout =>
        rw [List.getElem?_eq_none (by omega)]
        rfl
  · rw [List.getElem?_eq_none (by rw [length_load]; omega),
      List.getElem?_eq_none (by rw [length_load]; omega), if_neg (by omega), if_neg (by omega)]

/-- **A store into what has been stored.** -/
theorem store_store {k : ℕ} {more : List UInt8} (h : k + more.length ≤ bytes.length) :
    store (store m a bytes) (a + k) more = store m a (splice bytes k more) := by
  funext x
  by_cases hbefore : x < a
  · rw [store_of_lt (by omega), store_of_lt hbefore, store_of_lt hbefore]
  · obtain ⟨i, rfl⟩ : ∃ i, x = a + i := Nat.exists_eq_add_of_le (not_lt.mp hbefore)
    -- behind `a` the bytes that are stored last are in front
    unfold store
    rw [if_neg hbefore, if_neg hbefore, Nat.add_sub_cancel_left, getElem?_splice h]
    rw [Nat.add_sub_add_left]
    split
    · next hlt => rw [if_pos (by omega)]
    · rw [if_neg (by omega)]
      split
      · next hin =>
        have hget : i - k < more.length := by omega
        rw [List.getElem?_eq_getElem hget]
        rfl
      · next hout =>
        rw [List.getElem?_eq_none (l := more) (by omega)]
        rfl

end ByteStore
