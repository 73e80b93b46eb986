import MithAtomas.Core.System

/-!
# The scheduler's order and hazard graph

`SystemScheduler::build_graph` and `build_hazard_graph_` of `src/core/scheduler.cpp`, for `N`
registered systems given by their descriptors `desc : Fin N → SystemDescriptor`.

`buildOrder desc` is `order_`: the indices sorted by name. `buildHazardGraph desc` runs the two
nested loops over `order_`; each hit `haveHazard` appends `j` to `dependents_[i]` and increments
`in_degree_initial_[j]`. The loops are over a list, so a vector indexed by `size_t` is a function
on `Fin N`.

For distinct names the result is characterised completely: `mem_dependents` (there is an edge
`i → j` exactly when the two conflict and `i`'s name is the smaller), `dependents_nodup` and
`inDegreeInitial_eq` (the initial counter of `j` is the number of edges into `j`). The last one
holds of every graph built by `addEdge`, whatever the order (`HazardGraph.Counted`).
`DispatchGraph` packages a graph with these facts, so that the dispatcher's proofs start from them.
-/

namespace MithAtomas

/-- `dependents_` and `in_degree_initial_`. -/
structure HazardGraph (N : ℕ) where
  dependents : Fin N → List (Fin N)
  inDegreeInitial : Fin N → ℤ

namespace HazardGraph

variable {N : ℕ}

/-- `dependents_.assign(N, {}); in_degree_initial_.assign(N, 0);` -/
def empty (N : ℕ) : HazardGraph N where
  dependents := fun _ => []
  inDegreeInitial := fun _ => 0

/-- `dependents_[i].push_back(j); ++in_degree_initial_[j];` -/
def addEdge (g : HazardGraph N) (i j : Fin N) : HazardGraph N where
  dependents := Function.update g.dependents i (g.dependents i ++ [j])
  inDegreeInitial := Function.update g.inDegreeInitial j (g.inDegreeInitial j + 1)

/-- Every counter is the number of times its index was pushed. -/
def Counted (g : HazardGraph N) : Prop :=
  ∀ j, g.inDegreeInitial j = ∑ i, ((g.dependents i).count j : ℤ)

theorem counted_empty : (empty N).Counted := by
  intro j
  simp [empty]

theorem Counted.addEdge {g : HazardGraph N} (h : g.Counted) (i j : Fin N) :
    (g.addEdge i j).Counted := by
  intro k
  have hcount : ∀ x, ((g.addEdge i j).dependents x).count k
      = (g.dependents x).count k + (if x = i ∧ k = j then 1 else 0) := by
    intro x
    by_cases hx : x = i
    · subst hx
      by_cases hk : k = j
      · subst hk; simp [HazardGraph.addEdge]
      · simp [HazardGraph.addEdge, hk, Ne.symm hk]
    · simp [HazardGraph.addEdge, hx]
  simp only [hcount, Nat.cast_add, Finset.sum_add_distrib, ← h k]
  by_cases hk : k = j
  · subst hk; simp [HazardGraph.addEdge]
  · simp [HazardGraph.addEdge, hk]

end HazardGraph

variable {N : ℕ} (desc : Fin N → SystemDescriptor)

/-- `order_`: `std::iota`, then `std::sort` by name. -/
def buildOrder : List (Fin N) :=
  (List.finRange N).insertionSort fun a b => (desc a).name ≤ (desc b).name

/-- The inner loop of `build_hazard_graph_`: `i` against every later `j`. -/
def hazardLoopInner (i : Fin N) (later : List (Fin N)) (g : HazardGraph N) : HazardGraph N :=
  later.foldl (fun g j => if haveHazard (desc i) (desc j) then g.addEdge i j else g) g

/-- The outer loop of `build_hazard_graph_`, over `order_` from the current position on. -/
def hazardLoop : List (Fin N) → HazardGraph N → HazardGraph N
  | [], g => g
  | i :: later, g => hazardLoop later (hazardLoopInner desc i later g)

/-- `build_hazard_graph_`. -/
def buildHazardGraph : HazardGraph N :=
  hazardLoop desc (buildOrder desc) (HazardGraph.empty N)

/-! ### The order -/

theorem perm_buildOrder : (buildOrder desc).Perm (List.finRange N) :=
  List.perm_insertionSort _ _

theorem mem_buildOrder (i : Fin N) : i ∈ buildOrder desc :=
  (perm_buildOrder desc).mem_iff.mpr (List.mem_finRange i)

theorem nodup_buildOrder : (buildOrder desc).Nodup :=
  (perm_buildOrder desc).nodup_iff.mpr (List.nodup_finRange N)

variable {desc}

/-- With distinct names `order_` is strictly increasing by name. -/
theorem pairwise_buildOrder (hnames : Function.Injective fun i => (desc i).name) :
    (buildOrder desc).Pairwise fun a b => (desc a).name < (desc b).name := by
  have hle : (buildOrder desc).Pairwise fun a b => (desc a).name ≤ (desc b).name :=
    List.pairwise_insertionSort _ _
  refine (hle.and (nodup_buildOrder desc)).imp ?_
  rintro a b ⟨hab, hne⟩
  exact lt_of_le_of_ne hab fun h => hne (hnames h)

/-! ### The loops -/

theorem hazardLoopInner_counted (i : Fin N) :
    ∀ (later : List (Fin N)) (g : HazardGraph N), g.Counted →
      (hazardLoopInner desc i later g).Counted := by
  intro later
  induction later with
  | nil => exact fun g h => h
  | cons j later ih =>
    intro g h
    change (hazardLoopInner desc i later (if _ then _ else _)).Counted
    refine ih _ ?_
    split
    · exact h.addEdge i j
    · exact h

theorem hazardLoop_counted :
    ∀ (l : List (Fin N)) (g : HazardGraph N), g.Counted → (hazardLoop desc l g).Counted := by
  intro l
  induction l with
  | nil => exact fun g h => h
  | cons i later ih => exact fun g h => ih _ (hazardLoopInner_counted i later g h)

theorem hazardLoopInner_dependents (i k : Fin N) :
    ∀ (later : List (Fin N)) (g : HazardGraph N),
      (hazardLoopInner desc i later g).dependents k =
        if k = i then g.dependents i ++ later.filter (fun j => haveHazard (desc i) (desc j))
        else g.dependents k := by
  intro later
  induction later with
  | nil =>
    intro g
    by_cases hk : k = i
    · subst hk; simp [hazardLoopInner]
    · simp [hazardLoopInner, hk]
  | cons j later ih =>
    intro g
    change (hazardLoopInner desc i later _).dependents k = _
    rw [ih]
    -- one more edge from `i`, if there is a hazard
    by_cases hk : k = i
    · subst hk
      by_cases hj : haveHazard (desc k) (desc j) = true
      · simp [hj, HazardGraph.addEdge]
      · simp [hj]
    · by_cases hj : haveHazard (desc i) (desc j) = true
      · simp [hj, hk, HazardGraph.addEdge]
      · simp [hj, hk]

/-- What the loops leave in `dependents_[k]`: the systems after `k` in the order that conflict
with it. The induction is on the outer loop; an index not reached yet still has its old list. -/
theorem hazardLoop_dependents (k : Fin N) :
    ∀ (l : List (Fin N)) (g : HazardGraph N), l.Nodup →
      (hazardLoop desc l g).dependents k =
        if k ∈ l then g.dependents k ++
          (l.dropWhile (· ≠ k)).tail.filter (fun j => haveHazard (desc k) (desc j))
        else g.dependents k := by
  intro l
  induction l with
  | nil => intro g _; simp [hazardLoop]
  | cons i later ih =>
    intro g hnd
    obtain ⟨hi, hnd⟩ := List.nodup_cons.mp hnd
    rw [hazardLoop, ih _ hnd, hazardLoopInner_dependents]
    by_cases hk : k = i
    · subst hk; simp [hi]
    · simp [hk, Ne.symm hk]

/-- In a list sorted strictly by `r`, what stands after `k` is what is above `k`. -/
theorem mem_tail_dropWhile {α : Type} [DecidableEq α] {r : α → α → Prop} (hirr : ∀ a, ¬ r a a)
    (hasymm : ∀ a b, r a b → ¬ r b a) {l : List α} (hl : l.Pairwise r) {k j : α}
    (hk : k ∈ l) (hj : j ∈ l) : j ∈ (l.dropWhile (· ≠ k)).tail ↔ r k j := by
  induction l with
  | nil => exact absurd hk (List.not_mem_nil)
  | cons a l ih =>
    obtain ⟨ha, hl⟩ := List.pairwise_cons.mp hl
    by_cases hak : a = k
    · subst hak
      rw [List.dropWhile_cons_of_neg (by simp), List.tail_cons]
      refine ⟨ha j, fun hr => ?_⟩
      rcases List.mem_cons.mp hj with rfl | hj
      · exact absurd hr (hirr j)
      · exact hj
    · have hkl : k ∈ l := (List.mem_cons.mp hk).resolve_left (Ne.symm hak)
      rw [List.dropWhile_cons_of_pos (by simpa using hak)]
      rcases List.mem_cons.mp hj with rfl | hj
      · refine ⟨fun hmem => ?_, fun hr => absurd hr (hasymm _ _ (ha k hkl))⟩
        have hmem : j ∈ l := (List.dropWhile_sublist _).mem ((List.tail_sublist _).mem hmem)
        exact absurd (ha j hmem) (hirr j)
      · exact ih hl hkl hj

/-! ### The finished graph -/

theorem buildHazardGraph_counted : (buildHazardGraph desc).Counted :=
  hazardLoop_counted _ _ HazardGraph.counted_empty

theorem buildHazardGraph_dependents (k : Fin N) :
    (buildHazardGraph desc).dependents k =
      ((buildOrder desc).dropWhile (· ≠ k)).tail.filter
        (fun j => haveHazard (desc k) (desc j)) := by
  rw [buildHazardGraph, hazardLoop_dependents k _ _ (nodup_buildOrder desc),
    if_pos (mem_buildOrder desc k)]
  rfl

theorem dependents_nodup (k : Fin N) : ((buildHazardGraph desc).dependents k).Nodup := by
  rw [buildHazardGraph_dependents]
  refine List.Nodup.filter _ ((nodup_buildOrder desc).sublist ?_)
  exact (List.tail_sublist _).trans (List.dropWhile_sublist _)

/-- **The edges.** `j` is a dependent of `i` iff the two conflict and `i` has the smaller name. -/
theorem mem_dependents (hnames : Function.Injective fun i => (desc i).name) {i j : Fin N} :
    j ∈ (buildHazardGraph desc).dependents i ↔
      (desc i).name < (desc j).name ∧ haveHazard (desc i) (desc j) = true := by
  rw [buildHazardGraph_dependents, List.mem_filter,
    mem_tail_dropWhile (r := fun a b => (desc a).name < (desc b).name) (fun a => lt_irrefl _)
      (fun a b h => lt_asymm h) (pairwise_buildOrder hnames) (mem_buildOrder desc i)
        (mem_buildOrder desc j)]

/-- A hazard graph as `build_graph` leaves it: no edge twice, counters equal to the number of
incoming edges, and every edge upwards in some order of the systems. -/
structure DispatchGraph (N : ℕ) extends HazardGraph N where
  nodup : ∀ i, (dependents i).Nodup
  counted : toHazardGraph.Counted
  /-- The position in a topological order. -/
  rank : Fin N → ℕ
  rank_lt : ∀ {i j}, j ∈ dependents i → rank i < rank j

/-- The graph of systems with distinct names, ranked by their position in `order_`. -/
def dispatchGraph (desc : Fin N → SystemDescriptor)
    (hnames : Function.Injective fun i => (desc i).name) : DispatchGraph N where
  toHazardGraph := buildHazardGraph desc
  nodup := dependents_nodup
  counted := buildHazardGraph_counted
  rank := fun i => (Finset.univ.filter fun k => (desc k).name < (desc i).name).card
  rank_lt := by
    intro i j hij
    have hlt := ((mem_dependents hnames).mp hij).1
    refine Finset.card_lt_card (Finset.ssubset_iff_of_subset ?_ |>.mpr ⟨i, ?_, ?_⟩)
    · intro k hk
      rw [Finset.mem_filter] at hk ⊢
      exact ⟨hk.1, hk.2.trans hlt⟩
    · exact Finset.mem_filter.mpr ⟨Finset.mem_univ i, hlt⟩
    · exact fun h => lt_irrefl _ (Finset.mem_filter.mp h).2

end MithAtomas
