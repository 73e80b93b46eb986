import Mathlib

/-!
# Streams of blocks

A stream whose elements come in blocks of `B`, such as a keystream. `segment block p n` are the `n`
elements from position `p` on, whatever block they are in. Segments put together are a segment
(`segment_add`, `flatten_segments`), a segment inside one block is a piece of that block
(`segment_within`), and the segment from the start is a prefix of the blocks put together
(`segment_zero`).
-/

namespace BlockStream

variable {A : Type} {B : ℕ} [NeZero B] (block : ℕ → Fin B → A)

/-- The `n` elements from position `p` on. -/
def segment (p n : ℕ) : List A :=
  (List.range' p n).map fun i => block (i / B) (Fin.ofNat B i)

/-- The blocks before block `k`, put together. -/
def blocks (k : ℕ) : List A :=
  (List.range k).flatMap fun c => List.ofFn (block c)

/-- Segments of the given lengths, one behind the other. -/
def segments : ℕ → List ℕ → List (List A)
  | _, [] => []
  | p, n :: ns => segment block p n :: segments (p + n) ns

variable {block}

@[simp] theorem length_segment (p n : ℕ) : (segment block p n).length = n := by
  rw [segment, List.length_map, List.length_range']

theorem segment_add (p m n : ℕ) :
    segment block p (m + n) = segment block p m ++ segment block (p + m) n := by
  rw [segment, segment, segment, ← List.map_append, List.range'_append_1]

theorem map_length_segments (p : ℕ) (ns : List ℕ) :
    (segments block p ns).map List.length = ns := by
  induction ns generalizing p with
  | nil => rfl
  | cons n ns ih => rw [segments, List.map_cons, ih, length_segment]

theorem flatten_segments (p : ℕ) (ns : List ℕ) :
    (segments block p ns).flatten = segment block p ns.sum := by
  induction ns generalizing p with
  | nil => rfl
  | cons n ns ih => rw [segments, List.flatten_cons, ih, List.sum_cons, segment_add]

/-- A segment is a prefix of a longer one. -/
theorem take_segment {m n : ℕ} (p : ℕ) (h : m ≤ n) :
    (segment block p n).take m = segment block p m := by
  obtain ⟨k, rfl⟩ := Nat.exists_eq_add_of_le h
  rw [segment_add, List.take_left' (length_segment p m)]

/-- Inside one block. -/
theorem segment_within {c o m : ℕ} (h : o + m ≤ B) :
    segment block (B * c + o) m = ((List.ofFn (block c)).drop o).take m := by
  refine List.ext_getElem ?_ fun i hi hi' => ?_
  · rw [length_segment, List.length_take, List.length_drop, List.length_ofFn]
    omega
  · rw [length_segment] at hi
    have hlt : o + i < B := by omega
    rw [List.getElem_take, List.getElem_drop, List.getElem_ofFn]
    simp only [segment, List.getElem_map, List.getElem_range']
    -- the index stays in block `c`
    have hdiv : (B * c + o + 1 * i) / B = c := by
      rw [show B * c + o + 1 * i = o + i + B * c by omega, Nat.add_mul_div_left _ _ (by omega),
        Nat.div_eq_of_lt hlt, Nat.zero_add]
    have hmod : (B * c + o + 1 * i) % B = o + i := by
      rw [show B * c + o + 1 * i = o + i + B * c by omega, Nat.add_mul_mod_self_left,
        Nat.mod_eq_of_lt hlt]
    rw [hdiv]
    exact congrArg (block c) (Fin.ext hmod)

/-- **From the start** a segment is a prefix of the blocks. -/
theorem segment_zero {k n : ℕ} (h : n ≤ B * k) :
    segment block 0 n = (blocks block k).take n := by
  -- whole blocks first, then a prefix of them
  have hblocks : segment block 0 (B * k) = blocks block k := by
    clear h
    induction k with
    | zero => rfl
    | succ k ih =>
      have hlast : segment block (B * k + 0) B = ((List.ofFn (block k)).drop 0).take B :=
        segment_within (Nat.zero_add B).le
      rw [Nat.add_zero, List.drop_zero, List.take_of_length_le (by rw [List.length_ofFn])] at hlast
      rw [Nat.mul_succ, segment_add, ih, Nat.zero_add, hlast, blocks, blocks, List.range_succ,
        List.flatMap_append, List.flatMap_singleton]
  rw [← hblocks, take_segment 0 h]

end BlockStream
