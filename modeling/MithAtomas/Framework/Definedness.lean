import Mathlib

/-!
# Where a computation is defined

A computation that may be undefined, as an `Option`, next to a total function and the condition
under which the computation is defined and gives the function's value (`Computes`). The rules follow
the computation: `Computes.bind` for one that goes on with the value, `computes_mapM` for a list,
`computes_foldlM` for a loop that carries a state.
-/

namespace Definedness

variable {α β σ : Type}

/-- `x` is defined if and only if `P` holds, and then its value is `v`. -/
structure Computes (x : Option α) (v : α) (P : Prop) : Prop where
  eq_some_iff : ∀ a, x = some a ↔ a = v ∧ P

variable {x : Option α} {v w : α} {P Q : Prop}

theorem computes_some (v : α) : Computes (some v) v True where
  eq_some_iff a := by rw [Option.some.injEq, eq_comm, and_true]

theorem Computes.congr (h : Computes x v P) (hv : P → v = w) (hP : P ↔ Q) : Computes x w Q := by
  refine ⟨fun a => ?_⟩
  rw [h.eq_some_iff a, ← hP]
  exact and_congr_left fun hp => by rw [hv hp]

theorem Computes.eq_some (h : Computes x v P) (hp : P) : x = some v :=
  (h.eq_some_iff v).mpr ⟨rfl, hp⟩

theorem Computes.eq_none (h : Computes x v P) (hp : ¬ P) : x = none :=
  Option.eq_none_iff_forall_ne_some.mpr fun a ha => hp ((h.eq_some_iff a).mp ha).2

/-- **The rest is defined where the first part is**, and only then need it be looked at. -/
theorem Computes.bind {f : α → Option β} {u : β} (h : Computes x v P)
    (hf : P → Computes (f v) u Q) : Computes (x >>= f) u (P ∧ Q) := by
  refine ⟨fun b => ?_⟩
  rw [Option.bind_eq_bind, Option.bind_eq_some_iff]
  constructor
  · rintro ⟨a, ha, hb⟩
    obtain ⟨rfl, hp⟩ := (h.eq_some_iff a).mp ha
    obtain ⟨rfl, hq⟩ := ((hf hp).eq_some_iff b).mp hb
    exact ⟨rfl, hp, hq⟩
  · rintro ⟨rfl, hp, hq⟩
    exact ⟨v, h.eq_some hp, (hf hp).eq_some hq⟩

theorem Computes.map (h : Computes x v P) (f : α → β) : Computes (x.map f) (f v) P := by
  refine ⟨fun b => ?_⟩
  rw [Option.map_eq_some_iff]
  constructor
  · rintro ⟨a, ha, rfl⟩
    obtain ⟨rfl, hp⟩ := (h.eq_some_iff a).mp ha
    exact ⟨rfl, hp⟩
  · rintro ⟨rfl, hp⟩
    exact ⟨v, h.eq_some hp, rfl⟩

theorem computes_ite {c : Prop} [Decidable c] {y : Option α} (ht : c → Computes x v P)
    (he : ¬ c → Computes y w Q) :
    Computes (if c then x else y) (if c then v else w) (if c then P else Q) := by
  split
  · next h => exact ht h
  · next h => exact he h

/-- **A list** is computed where all its elements are. -/
theorem computes_mapM {f : α → Option β} {g : α → β} {P : α → Prop} (l : List α)
    (h : ∀ a ∈ l, Computes (f a) (g a) (P a)) :
    Computes (l.mapM f) (l.map g) (∀ a ∈ l, P a) := by
  induction l with
  | nil => exact (computes_some []).congr (fun _ => rfl) (by simp)
  | cons a l ih =>
    rw [List.mapM_cons]
    have htail := ih fun b hb => h b (List.mem_cons_of_mem _ hb)
    have hrest : Computes (l.mapM f >>= fun bs => some (g a :: bs)) (g a :: l.map g)
        ((∀ b ∈ l, P b) ∧ True) :=
      htail.bind fun _ => computes_some _
    refine ((h a List.mem_cons_self).bind fun _ => hrest).congr (fun _ => rfl) ?_
    rw [and_true, List.forall_mem_cons]

/-- **A loop** is defined where each step is, in the state that it finds. -/
theorem computes_foldlM {f : σ → α → Option σ} {g : σ → α → σ} {P : σ → α → Prop}
    (h : ∀ s a, Computes (f s a) (g s a) (P s a)) (l : List α) (s : σ) :
    Computes (l.foldlM f s) (l.foldl g s) (∀ pre a, pre ++ [a] <+: l → P (pre.foldl g s) a) := by
  induction l generalizing s with
  | nil => exact (computes_some s).congr (fun _ => rfl) (by simp)
  | cons a l ih =>
    rw [List.foldlM_cons]
    -- the first step, and then the rest of the loop in the state it leaves
    refine ((h s a).bind fun _ => ih (g s a)).congr (fun _ => rfl) ?_
    constructor
    · rintro ⟨hfirst, hrest⟩ pre b hpre
      cases pre with
      | nil =>
        obtain ⟨rfl, -⟩ := List.cons_prefix_cons.mp hpre
        exact hfirst
      | cons c pre =>
        obtain ⟨rfl, htail⟩ := List.cons_prefix_cons.mp hpre
        exact hrest pre b htail
    · intro hall
      refine ⟨hall [] a (List.cons_prefix_cons.mpr ⟨rfl, List.nil_prefix⟩), fun pre b hpre => ?_⟩
      exact hall (a :: pre) b (List.cons_prefix_cons.mpr ⟨rfl, hpre⟩)

end Definedness
