import Mathlib

/-!
# Loops that fill a vector

What is where in a vector after a loop that sets one element for each of its indices, as far as the
loop gets: it ends if there is something for each index, and then that is what the vector holds
(`foldlM_set_eq_some_iff`).
-/

namespace VectorLoop

variable {A : Type} {n : ℕ}

theorem get_set (v : Vector A n) (i j : Fin n) (a : A) :
    (v.set i a).get j = if j = i then a else v.get j := by
  show (v.set i a)[j.val] = _
  rw [Vector.getElem_set]
  simp only [Fin.ext_iff, eq_comm]
  rfl

/-- `v[i] = a` -/
def setAt (v : Vector A n) (i : Fin n) (a : A) : Vector A n :=
  v.set i a i.isLt

theorem get_setAt (v : Vector A n) (i j : Fin n) (a : A) :
    (setAt v i a).get j = if j = i then a else v.get j :=
  get_set v i j a

/-- A round that has something for its index. -/
theorem set_round_iff {f : Fin n → Option A} {l : List (Fin n)} {i : Fin n} {a : A}
    (hf : f i = some a) (hi : i ∉ l) {v w : Vector A n} :
    ((∀ j ∈ l, f j = some (w.get j)) ∧ ∀ j, j ∉ l → w.get j = (v.set i a).get j) ↔
      (∀ j ∈ i :: l, f j = some (w.get j)) ∧ ∀ j, j ∉ i :: l → w.get j = v.get j := by
  constructor
  · rintro ⟨hin, hout⟩
    have hself : w.get i = a := by
      rw [hout i hi, get_set, if_pos rfl]
    refine ⟨fun j hj => ?_, fun j hj => ?_⟩
    · rcases List.mem_cons.mp hj with rfl | hj
      · rw [hf, hself]
      · exact hin j hj
    · obtain ⟨hne, hj⟩ := not_or.mp (mt List.mem_cons.mpr hj)
      rw [hout j hj, get_set, if_neg hne]
  · rintro ⟨hin, hout⟩
    refine ⟨fun j hj => hin j (List.mem_cons_of_mem i hj), fun j hj => ?_⟩
    rw [get_set]
    split
    · next heq =>
      have hself := hin i List.mem_cons_self
      rw [hf] at hself
      rw [heq]
      exact (Option.some.inj hself).symm
    · next hne => exact hout j (mt List.mem_cons.mp (not_or.mpr ⟨hne, hj⟩))

/-- **A loop that stores a value at each index, or fails.** -/
theorem foldlM_set_eq_some_iff {f : Fin n → Option A} {l : List (Fin n)} (hl : l.Nodup)
    {v w : Vector A n} :
    l.foldlM (fun v i => (f i).map fun a => v.set i a) v = some w ↔
      (∀ i ∈ l, f i = some (w.get i)) ∧ ∀ i, i ∉ l → w.get i = v.get i := by
  -- on the indices; no later round sets the index of this one
  induction l generalizing v with
  | nil =>
    show some v = some w ↔ _
    rw [Option.some_inj]
    constructor
    · rintro rfl
      exact ⟨by rintro i ⟨⟩, fun i _ => rfl⟩
    · rintro ⟨-, h⟩
      exact (Vector.ext fun i hi => h ⟨i, hi⟩ List.not_mem_nil).symm
  | cons i l ih =>
    obtain ⟨hi, hl⟩ := List.nodup_cons.mp hl
    rw [List.foldlM_cons]
    cases hf : f i with
    | none =>
      -- the loop has stopped here
      refine ⟨by rintro ⟨⟩, fun h => ?_⟩
      have hsome := h.1 i List.mem_cons_self
      rw [hf] at hsome
      cases hsome
    | some a => exact (ih hl).trans (set_round_iff hf hi)

end VectorLoop
