import Mathlib

/-!
# Linear extensions and order-independence

Actions `f a : S → S`, one for each `a`, and a relation `E` between the actions whose order
matters. A list of actions is a *linear extension* of `E` when it never puts `b` before `a` with
`E a b` (`LinearExtends`). If every two actions either commute or are related by `E`, then two
linear extensions of `E` with the same actions do the same (`execute_eq_of_linearExtends`): the
first action of one list can be moved to the front of the other past actions it commutes with.

`before l a` is what runs ahead of `a`. A view of the state that only `a` changes is, for whatever
runs later, what `a` has left of it (`execute_before_view`, `execute_view`).

`ready_of_rank` is progress: while the actions left are ranked by `E`, one of them has no
predecessor left.
-/

namespace LinearExtension

variable {S A : Type}

/-- The actions of `l`, in order. -/
def execute (f : A → S → S) (l : List A) (s : S) : S :=
  l.foldl (fun s a => f a s) s

/-- No action stands before one of its predecessors. -/
def LinearExtends (E : A → A → Prop) (l : List A) : Prop :=
  l.Pairwise fun a b => ¬ E b a

variable {f : A → S → S} {E : A → A → Prop}

@[simp] theorem execute_nil (s : S) : execute f [] s = s := rfl

@[simp] theorem execute_cons (a : A) (l : List A) (s : S) :
    execute f (a :: l) s = execute f l (f a s) := rfl

theorem execute_append (l l' : List A) (s : S) :
    execute f (l ++ l') s = execute f l' (execute f l s) :=
  List.foldl_append

/-- An action moves to the front past actions it commutes with. -/
theorem execute_append_cons {a : A} {p : List A}
    (h : ∀ b ∈ p, Function.Commute (f a) (f b)) (q : List A) (s : S) :
    execute f (p ++ a :: q) s = execute f (a :: (p ++ q)) s := by
  induction p generalizing s with
  | nil => rfl
  | cons b p ih =>
    have hb : f a (f b s) = f b (f a s) := h b List.mem_cons_self s
    rw [List.cons_append, execute_cons, ih fun c hc => h c (List.mem_cons_of_mem b hc)]
    rw [execute_cons, hb, execute_cons, List.cons_append, execute_cons]

/-- **Two linear extensions do the same.** -/
theorem execute_eq_of_linearExtends {l₁ l₂ : List A} (hperm : l₁.Perm l₂) (hnd : l₁.Nodup)
    (h₁ : LinearExtends E l₁) (h₂ : LinearExtends E l₂)
    (hdep : ∀ a ∈ l₁, ∀ b ∈ l₁, a ≠ b → Function.Commute (f a) (f b) ∨ E a b ∨ E b a) (s : S) :
    execute f l₁ s = execute f l₂ s := by
  induction l₁ generalizing l₂ s with
  | nil => rw [List.nil_perm.mp hperm]
  | cons a t ih =>
    -- split the other list at `a`; what stands before `a` there stands after it here
    obtain ⟨p, q, rfl⟩ := List.append_of_mem (hperm.mem_iff.mp List.mem_cons_self)
    have hrest : t.Perm (p ++ q) := by
      have := hperm.trans List.perm_middle
      exact (List.perm_cons a).mp this
    obtain ⟨hat, ht⟩ := List.pairwise_cons.mp h₁
    obtain ⟨hat', hnd⟩ := List.nodup_cons.mp hnd
    have hp := List.pairwise_append.mp h₂
    have hcomm : ∀ b ∈ p, Function.Commute (f a) (f b) := by
      intro b hb
      have hbt : b ∈ t := hrest.mem_iff.mpr (List.mem_append_left q hb)
      have hne : a ≠ b := by
        rintro rfl
        exact hat' hbt
      rcases hdep a List.mem_cons_self b (List.mem_cons_of_mem a hbt) hne with h | h | h
      · exact h
      · exact absurd h (hp.2.2 b hb a List.mem_cons_self)
      · exact absurd h (hat b hbt)
    have hq : LinearExtends E (p ++ q) := by
      refine h₂.sublist ?_
      exact List.Sublist.append_left (List.sublist_cons_self a q) p
    rw [execute_append_cons hcomm, execute_cons, execute_cons]
    refine ih hrest hnd ht hq (fun b hb c hc => ?_) (f a s)
    exact hdep b (List.mem_cons_of_mem a hb) c (List.mem_cons_of_mem a hc)

/-! ### Views -/

section Views

variable [DecidableEq A] {V : Type} {π : S → V} {l : List A} {a b : A}

/-- The actions that run ahead of `a`. -/
def before (l : List A) (a : A) : List A :=
  l.takeWhile fun b => b ≠ a

theorem notMem_before (l : List A) (a : A) : a ∉ before l a := by
  intro h
  have := List.mem_takeWhile_imp h
  simp at this

theorem mem_of_mem_before (h : b ∈ before l a) : b ∈ l :=
  (List.takeWhile_sublist _).subset h

/-- What stands in a list that contains `a`. -/
theorem before_append (h : a ∈ l) : ∃ after, l = before l a ++ a :: after := by
  induction l with
  | nil => cases h
  | cons c l ih =>
    by_cases hc : c = a
    · rw [hc]
      exact ⟨l, by simp [before]⟩
    · obtain ⟨after, hafter⟩ := ih ((List.mem_cons.mp h).resolve_left (Ne.symm hc))
      refine ⟨after, ?_⟩
      have hcons : before (c :: l) a = c :: before l a := by simp [before, hc]
      rw [hcons, List.cons_append, ← hafter]

/-- Ahead of `a` nothing changes when a list is continued behind `a`. -/
theorem before_append_of_mem (h : a ∈ l) (l' : List A) : before (l ++ l') a = before l a := by
  induction l with
  | nil => cases h
  | cons c l ih =>
    by_cases hc : c = a
    · simp [before, hc]
    · have hl := ih ((List.mem_cons.mp h).resolve_left (Ne.symm hc))
      have hcons : ∀ k, before (c :: k) a = c :: before k a := fun k => by simp [before, hc]
      rw [List.cons_append, hcons, hcons, hl]

/-- Two actions are not each ahead of the other. -/
theorem notMem_before_of_mem_before (h : a ∈ before l b) : b ∉ before l a := by
  have hl : before l b ++ l.dropWhile (fun c => c ≠ b) = l := List.takeWhile_append_dropWhile
  rw [← hl, before_append_of_mem h]
  intro hb
  exact notMem_before l b (mem_of_mem_before hb)

/-- A predecessor runs ahead. -/
theorem mem_before_of_linearExtends (h : LinearExtends E l) (ha : a ∈ l) (hb : b ∈ l)
    (hne : a ≠ b) (hab : E a b) : a ∈ before l b := by
  obtain ⟨after, hafter⟩ := before_append hb
  rw [hafter] at h ha
  rcases List.mem_append.mp ha with hbefore | hrest
  · exact hbefore
  · have hmem := (List.mem_cons.mp hrest).resolve_left hne
    have hpair := (List.pairwise_append.mp h).2.1
    exact absurd hab ((List.pairwise_cons.mp hpair).1 a hmem)

omit [DecidableEq A] in
/-- A view that no action changes. -/
theorem execute_frame (hframe : ∀ c ∈ l, ∀ s, π (f c s) = π s) (s : S) :
    π (execute f l s) = π s := by
  induction l generalizing s with
  | nil => rfl
  | cons c l ih =>
    rw [execute_cons, ih fun d hd => hframe d (List.mem_cons_of_mem c hd)]
    exact hframe c List.mem_cons_self s

/-- At the end, a view that only `a` changes is what `a` has left of it. -/
theorem execute_view (hnd : l.Nodup) (ha : a ∈ l)
    (hframe : ∀ c ∈ l, c ≠ a → ∀ s, π (f c s) = π s) (s : S) :
    π (execute f l s) = π (f a (execute f (before l a) s)) := by
  obtain ⟨after, hafter⟩ := before_append ha
  have hnot : a ∉ after := by
    rw [hafter] at hnd
    exact (List.nodup_cons.mp (List.nodup_append.mp hnd).2.1).1
  have hrest : ∀ c ∈ after, ∀ s, π (f c s) = π s := by
    intro c hc
    have hmem : c ∈ l := by
      rw [hafter]
      exact List.mem_append_right _ (List.mem_cons_of_mem a hc)
    exact hframe c hmem fun hca => hnot (hca ▸ hc)
  calc π (execute f l s)
      = π (execute f (before l a ++ a :: after) s) := by rw [← hafter]
    _ = π (execute f after (f a (execute f (before l a) s))) := by
        rw [execute_append, execute_cons]
    _ = π (f a (execute f (before l a) s)) := execute_frame hrest _

/-- **What a later action sees** of a view that only `a` changes. -/
theorem execute_before_view (hnd : l.Nodup) (hab : a ∈ before l b)
    (hframe : ∀ c ∈ l, c ≠ a → ∀ s, π (f c s) = π s) (s : S) :
    π (execute f (before l b) s) = π (f a (execute f (before l a) s)) := by
  have hsub : (before l b).Sublist l := List.takeWhile_sublist _
  have hbefore : before (before l b) a = before l a := by
    have hl : before l b ++ l.dropWhile (fun c => c ≠ b) = l := List.takeWhile_append_dropWhile
    rw [← before_append_of_mem hab (l.dropWhile fun c => c ≠ b), hl]
  rw [execute_view (hnd.sublist hsub) hab (fun c hc => hframe c (hsub.subset hc)) s, hbefore]

end Views

/-! ### Progress -/

/-- Among finitely many actions left, one has all its predecessors behind it. -/
theorem ready_of_rank [Fintype A] [DecidableEq A] {rank : A → ℕ}
    (hrank : ∀ a b, E a b → rank a < rank b) {finished : Finset A} (hne : finished ≠ Finset.univ) :
    ∃ b ∉ finished, ∀ a, E a b → a ∈ finished := by
  have hleft : (Finset.univ \ finished).Nonempty := by
    rw [Finset.sdiff_nonempty]
    exact fun hle => hne (Finset.univ_subset_iff.mp hle)
  obtain ⟨b, hb, hmin⟩ := Finset.exists_min_image (Finset.univ \ finished) rank hleft
  refine ⟨b, (Finset.mem_sdiff.mp hb).2, fun a hab => ?_⟩
  by_contra ha
  have hle := hmin a (Finset.mem_sdiff.mpr ⟨Finset.mem_univ a, ha⟩)
  exact absurd (hrank a b hab) (not_lt.mpr hle)

/-- A ranked relation has no cycle. -/
theorem acyclic_of_rank {rank : A → ℕ} (hrank : ∀ a b, E a b → rank a < rank b) (a : A) :
    ¬ Relation.TransGen E a a := by
  intro h
  have hlt : ∀ b, Relation.TransGen E a b → rank a < rank b := by
    intro b hb
    induction hb with
    | single hab => exact hrank _ _ hab
    | tail _ hbc ih => exact ih.trans (hrank _ _ hbc)
  exact lt_irrefl _ (hlt a h)

end LinearExtension
