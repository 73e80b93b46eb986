import MithAtomas.Framework.VectorLoop

/-!
# Computations that may be undefined

What a computation that may be undefined is sure to do: `Ensures x P` says that `x` is defined and
that its value has `P`. The rules follow the computation: `Ensures.bind` for one that goes on with
the value, `ensures_foldlM` for a loop beside a function that says what the loop computes, and
`ensures_forUp` for a loop over the indices of an array, with an invariant.
-/

namespace CheckedLoop

variable {α β σ τ : Type}

/-- `x` is defined, and its value has `P`. -/
def Ensures (x : Option α) (P : α → Prop) : Prop :=
  ∃ a, x = some a ∧ P a

variable {x : Option α} {P Q : α → Prop}

@[simp] theorem ensures_some {a : α} : Ensures (some a) P ↔ P a := by
  unfold Ensures
  simp

@[simp] theorem ensures_pure {a : α} : Ensures (pure a) P ↔ P a :=
  ensures_some

/-- A value that is known. -/
theorem Ensures.eq_some {a : α} (h : Ensures x fun b => b = a) : x = some a := by
  obtain ⟨b, hb, hba⟩ := h
  rw [hb, hba]

theorem Ensures.mono (h : Ensures x P) (hPQ : ∀ a, P a → Q a) : Ensures x Q := by
  obtain ⟨a, ha, hP⟩ := h
  exact ⟨a, ha, hPQ a hP⟩

/-- **The rest** has to be defined for what the first part may give. -/
theorem Ensures.bind {f : α → Option β} {R : β → Prop} (h : Ensures x P)
    (hf : ∀ a, P a → Ensures (f a) R) : Ensures (x >>= f) R := by
  obtain ⟨a, ha, hP⟩ := h
  rw [ha]
  exact hf a hP

/-- A first part that is known. -/
theorem Ensures.after {a : α} {f : α → Option β} {R : β → Prop} (hx : x = some a)
    (h : Ensures (f a) R) : Ensures (x >>= f) R := by
  rw [hx]
  exact h

theorem Ensures.map {f : α → β} {R : β → Prop} (h : Ensures x P) (hf : ∀ a, P a → R (f a)) :
    Ensures (x.map f) R := by
  obtain ⟨a, ha, hP⟩ := h
  exact ⟨f a, by rw [ha]; rfl, hf a hP⟩

/-- **A loop beside a function.** If each round keeps the loop's state related to what the function
makes of its own, the loop ends related to the function's value. -/
theorem ensures_foldlM {f : σ → α → Option σ} {g : τ → α → τ} (R : σ → τ → Prop) (l : List α)
    (hround : ∀ s t, ∀ a ∈ l, R s t → Ensures (f s a) fun s' => R s' (g t a)) {s : σ} {t : τ}
    (h : R s t) : Ensures (l.foldlM f s) fun s' => R s' (l.foldl g t) := by
  induction l generalizing s t with
  | nil => exact ensures_pure.mpr h
  | cons a l ih =>
    rw [List.foldlM_cons, List.foldl_cons]
    refine (hround s t a List.mem_cons_self h).bind fun s' hs' => ?_
    exact ih (fun s t b hb => hround s t b (List.mem_cons_of_mem a hb)) hs'

/-- `for (i = 0; i < n; ++i)` -/
def forUp (n : ℕ) (f : Fin n → σ → Option σ) (s : σ) : Option σ :=
  (List.finRange n).foldlM (fun s i => f i s) s

/-- `for (i = n - 1; i >= 0; --i)` -/
def forDown (n : ℕ) (f : Fin n → σ → Option σ) (s : σ) : Option σ :=
  (List.finRange n).reverse.foldlM (fun s i => f i s) s

/-- What remains of the indices from `k` on. -/
private theorem finRange_drop {n k : ℕ} (h : k < n) :
    (List.finRange n).drop k = ⟨k, h⟩ :: (List.finRange n).drop (k + 1) := by
  rw [List.drop_eq_getElem_cons (by rwa [List.length_finRange])]
  simp

/-- **A loop with an invariant**, which `I k` is before round `k`. -/
theorem ensures_forUp {n : ℕ} {f : Fin n → σ → Option σ} (I : ℕ → σ → Prop) {s : σ} (h : I 0 s)
    (hround : ∀ (i : Fin n) (s : σ), I i s → Ensures (f i s) (I (i + 1))) :
    Ensures (forUp n f s) (I n) := by
  -- on the rounds that are left
  have hrest : ∀ m k, k + m = n → ∀ s, I k s →
      Ensures (((List.finRange n).drop k).foldlM (fun s i => f i s) s) (I n) := by
    intro m
    induction m with
    | zero =>
      intro k hk s hs
      have hdrop : (List.finRange n).drop k = [] :=
        List.drop_of_length_le (by rw [List.length_finRange]; omega)
      rw [hdrop]
      exact ensures_pure.mpr (by rwa [show n = k by omega])
    | succ m ih =>
      intro k hk s hs
      rw [finRange_drop (by omega), List.foldlM_cons]
      exact (hround ⟨k, by omega⟩ s hs).bind fun s' hs' => ih (k + 1) (by omega) s' hs'
  exact hrest n 0 (Nat.zero_add n) s h

/-- **A loop that fills an array**, one element a round. -/
theorem ensures_fill {A : Type} {n : ℕ} {f : Fin n → Option A} {P : Fin n → A → Prop}
    (h : ∀ i, Ensures (f i) (P i)) (v : Vector A n) :
    Ensures (forUp n (fun i v => (f i).map fun a => VectorLoop.setAt v i a) v) fun w =>
      ∀ i, P i (w.get i) := by
  choose a ha hP using h
  have hget : ∀ i, (Vector.ofFn a).get i = a i := fun i => Vector.getElem_ofFn i.isLt
  refine ⟨Vector.ofFn a, ?_, fun i => by rw [hget]; exact hP i⟩
  refine (VectorLoop.foldlM_set_eq_some_iff (List.nodup_finRange n)).mpr ⟨fun i _ => ?_, ?_⟩
  · rw [hget, ha]
  · exact fun i hi => absurd (List.mem_finRange i) hi

/-- **A loop down to zero**: `I k` is the invariant when `k` rounds are left. -/
theorem ensures_forDown {n : ℕ} {f : Fin n → σ → Option σ} (I : ℕ → σ → Prop) {s : σ} (h : I n s)
    (hround : ∀ (i : Fin n) (s : σ), I (i + 1) s → Ensures (f i s) (I i)) :
    Ensures (forDown n f s) (I 0) := by
  have hrest : ∀ k, k ≤ n → ∀ s, I k s →
      Ensures (((List.finRange n).take k).reverse.foldlM (fun s i => f i s) s) (I 0) := by
    intro k
    induction k with
    | zero =>
      intro _ s hs
      exact ensures_pure.mpr hs
    | succ k ih =>
      intro hk s hs
      have htake : (List.finRange n).take (k + 1) = (List.finRange n).take k ++ [⟨k, hk⟩] := by
        rw [List.take_add_one, List.getElem?_eq_getElem (by rwa [List.length_finRange])]
        simp
      rw [htake, List.reverse_append, List.reverse_singleton, List.singleton_append,
        List.foldlM_cons]
      exact (hround ⟨k, hk⟩ s hs).bind fun s' hs' => ih (by omega) s' hs'
  have htake : (List.finRange n).take n = List.finRange n :=
    List.take_of_length_le (by rw [List.length_finRange])
  have hall := hrest n le_rfl s h
  rwa [htake] at hall

end CheckedLoop
