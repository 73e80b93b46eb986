import Mathlib

/-!
# Buffers

A buffer that is filled from the front holds a prefix of its slots, and storing in the next one adds
an item (`take_set_succ`).

The contents of a ring buffer: `window b head size` is what `size` slots hold, from slot `head` on
and around the end of the buffer. Storing behind a window that is not full makes it longer by one
(`window_set`); storing behind a full one replaces its oldest item (`window_set_full`); moving the
head on drops the oldest (`window_succ`).

A buffer of records of one width, stored end to end: `slots` are its records. Writing a record at
the start of a slot stores it there and leaves the others alone (`slots_splice`).
-/

namespace Ring

/-- Storing in the slot behind the filled ones. -/
theorem take_set_succ {T : Type} {l : List T} {k : ℕ} (hk : k < l.length) (x : T) :
    (l.set k x).take (k + 1) = l.take k ++ [x] := by
  have hk' : k < (l.set k x).length := by rwa [List.length_set]
  rw [List.take_add_one, List.getElem?_eq_getElem hk', List.getElem_set_self,
    List.take_set_of_le (le_refl k)]
  rfl

/-! ### Rings -/

variable {T : Type} {N : ℕ} [NeZero N] (b : Vector T N) (head size : ℕ)

/-- The items of a ring buffer, oldest first. -/
def window : List T :=
  (List.range size).map fun k => b.get (Fin.ofNat N (head + k))

@[simp] theorem length_window : (window b head size).length = size := by
  rw [window, List.length_map, List.length_range]

@[simp] theorem window_zero : window b head 0 = [] := rfl

/-- Only the slot matters, not how often the head has been around. -/
@[simp] theorem window_mod : window b (head % N) size = window b head size := by
  unfold window
  refine List.map_congr_left fun k _ => congrArg b.get ?_
  apply Fin.ext
  show (head % N + k) % N = (head + k) % N
  exact Nat.mod_add_mod head N k

theorem window_succ :
    window b head (size + 1) = b.get (Fin.ofNat N head) :: window b (head + 1) size := by
  unfold window
  rw [List.range_succ_eq_map, List.map_cons, List.map_map, Nat.add_zero]
  congr 1
  refine List.map_congr_left fun k _ => ?_
  show b.get (Fin.ofNat N (head + (k + 1))) = b.get (Fin.ofNat N (head + 1 + k))
  rw [Nat.add_assoc, Nat.add_comm 1 k]

/-- Storing behind the window. -/
theorem window_set {i : ℕ} (hi : i < N) (h : i = (head + size) % N) (hsize : size < N) (x : T) :
    window (b.set i x) head (size + 1) = window b head size ++ [x] := by
  unfold window
  rw [List.range_succ, List.map_append, List.map_singleton]
  congr 1
  · refine List.map_congr_left fun k hk => ?_
    have hk : k < size := List.mem_range.mp hk
    -- the slots of the window are not the one behind it
    have hne : i ≠ (head + k) % N := by
      intro heq
      have hmod : head + k ≡ head + size [MOD N] := heq.symm.trans h
      have hks : k % N = size % N := Nat.ModEq.add_left_cancel' head hmod
      rw [Nat.mod_eq_of_lt (hk.trans hsize), Nat.mod_eq_of_lt hsize] at hks
      omega
    exact Vector.getElem_set_ne _ _ hne
  · have hslot : Fin.ofNat N (head + size) = ⟨i, hi⟩ := Fin.ext h.symm
    rw [hslot]
    exact congrArg (fun y => [y]) (Vector.getElem_set_self _)

/-- Storing behind a full window. -/
theorem window_set_full {i : ℕ} (hi : i < N) (h : i = head % N) (x : T) :
    window (b.set i x) (head + 1) N = (window b head N).tail ++ [x] := by
  obtain ⟨n, hn⟩ : ∃ n, N = n + 1 := Nat.exists_eq_succ_of_ne_zero (NeZero.ne N)
  have hslot : i = (head + 1 + n) % N := by
    rw [h, Nat.add_assoc, Nat.add_comm 1 n, ← hn, Nat.add_mod_right]
  have hset := window_set b (head + 1) n hi hslot (by omega) x
  have htail : (window b head (n + 1)).tail = window b (head + 1) n := by
    rw [window_succ, List.tail_cons]
  rw [← htail, ← hn] at hset
  exact hset

/-! ### Records of one width in a flat buffer -/

/-- `bytes` written over `l`, from position `start` on. -/
def splice (l : List T) (start : ℕ) (bytes : List T) : List T :=
  l.take start ++ (bytes ++ l.drop (start + bytes.length))

/-- The record in slot `j`. -/
def record (width : ℕ) (l : List T) (j : ℕ) : List T :=
  (l.drop (j * width)).take width

/-- The records of a buffer with `N` slots. -/
def slots (width N : ℕ) (l : List T) : Vector (List T) N :=
  Vector.ofFn fun j => record width l j

variable {width : ℕ} {l bytes : List T}

omit [NeZero N] in
@[simp] theorem slots_get (j : Fin N) : (slots width N l).get j = record width l j := by
  show (Vector.ofFn fun j : Fin N => record width l j)[j.val] = _
  rw [Vector.getElem_ofFn]

theorem length_splice {start : ℕ} (h : start + bytes.length ≤ l.length) :
    (splice l start bytes).length = l.length := by
  unfold splice
  rw [List.length_append, List.length_append, List.length_take, List.length_drop]
  omega

theorem getElem?_splice {start : ℕ} (h : start + bytes.length ≤ l.length) (m : ℕ) :
    (splice l start bytes)[m]? =
      if m < start then l[m]?
      else if m < start + bytes.length then bytes[m - start]? else l[m]? := by
  have hlen : (l.take start).length = start := by
    rw [List.length_take]
    omega
  unfold splice
  rw [List.getElem?_append, hlen]
  split
  · next hm => exact List.getElem?_take_of_lt hm
  · rw [List.getElem?_append]
    split
    · next hm => rw [if_pos (by omega)]
    · next hm =>
      rw [if_neg (by omega), List.getElem?_drop]
      congr 1
      omega

theorem getElem?_record (j k : ℕ) :
    (record width l j)[k]? = if k < width then l[j * width + k]? else none := by
  unfold record
  rw [List.getElem?_take]
  split
  · rw [List.getElem?_drop]
  · rfl

/-- Another slot keeps its record. -/
theorem record_splice_of_ne {i j : ℕ} (hbytes : bytes.length = width)
    (hi : i * width + width ≤ l.length) (hne : j ≠ i) :
    record width (splice l (i * width) bytes) j = record width l j := by
  refine List.ext_getElem? fun k => ?_
  rw [getElem?_record, getElem?_record]
  split
  · next hk =>
    rw [getElem?_splice (by rwa [hbytes]), hbytes]
    -- the two slots do not overlap
    rcases Nat.lt_or_gt_of_ne hne with hlt | hgt
    · have hbefore : (j + 1) * width ≤ i * width := Nat.mul_le_mul_right width hlt
      rw [Nat.succ_mul] at hbefore
      rw [if_pos (by omega)]
    · have hbehind : (i + 1) * width ≤ j * width := Nat.mul_le_mul_right width hgt
      rw [Nat.succ_mul] at hbehind
      rw [if_neg (by omega), if_neg (by omega)]
  · rfl

theorem record_splice_self {i : ℕ} (hbytes : bytes.length = width)
    (hi : i * width + width ≤ l.length) :
    record width (splice l (i * width) bytes) i = bytes := by
  refine List.ext_getElem? fun k => ?_
  rw [getElem?_record]
  split
  · next hk =>
    rw [getElem?_splice (by rwa [hbytes]), hbytes, if_neg (by omega), if_pos (by omega),
      Nat.add_sub_cancel_left]
  · next hk =>
    rw [List.getElem?_eq_none]
    omega

omit [NeZero N] in
/-- **A record is written into its slot.** -/
theorem slots_splice {i : ℕ} (hi : i < N) (hbytes : bytes.length = width)
    (hl : l.length = N * width) :
    slots width N (splice l (i * width) bytes) = (slots width N l).set i bytes := by
  have hroom : i * width + width ≤ l.length := by
    rw [hl, ← Nat.succ_mul]
    exact Nat.mul_le_mul_right width hi
  refine Vector.ext fun j hj => ?_
  unfold slots
  rw [Vector.getElem_ofFn, Vector.getElem_set, Vector.getElem_ofFn]
  split
  · next heq =>
    subst heq
    exact record_splice_self hbytes hroom
  · next hne => exact record_splice_of_ne hbytes hroom (Ne.symm hne)

end Ring
