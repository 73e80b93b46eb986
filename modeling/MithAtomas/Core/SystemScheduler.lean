import MithAtomas.Core.Scheduler
import MithAtomas.Core.SystemRegistration

/-!
# Building the scheduler's graph

`SystemScheduler::register_system` and `build_graph` with the vectors they keep between calls: the
order, the hazard graph and the timing buffer are those of the last build, and a registration only
clears `built_`. So they may be stale, of another length than `systems_`, until the next build.

`UpToDate` says what they are when `built_` is set: those of the systems that are registered. It is
what a build leaves (`upToDate_buildGraph`), so it holds whenever `built_` is set
(`Canonical.run`). What a built scheduler executes, and the edges of its graph by name, depend on
the set of its systems only (`UpToDate.executed_eq`, `UpToDate.hasEdge_iff`).
-/

namespace MithAtomas

variable {σ : Type}

/-- `SystemTiming`; nothing computes with the measured times. -/
structure SystemTiming where
  name : String := ""
  startUs : ℚ := 0
  durationUs : ℚ := 0
  threadId : UInt32 := 0
  deriving DecidableEq, Repr

structure SystemScheduler (σ : Type) where
  mode : SchedulerMode
  systems : List (System σ) := []
  order : List ℕ := []
  dependents : List (List ℕ) := []
  inDegreeInitial : List ℤ := []
  /-- whether there is a thread pool -/
  pool : Bool := false
  lastTimings : List SystemTiming := []
  built : Bool := false

namespace SystemScheduler

variable (s : SystemScheduler σ)

/-- The descriptors of `systems_`, by index. -/
def descriptorAt (i : Fin s.systems.length) : SystemDescriptor :=
  s.systems[i].describe

/-- `register_system`. -/
def registerSystem (system : System σ) : SystemScheduler σ × SchedulerStatus :=
  if s.systems.any fun existing => existing.describe.name = system.describe.name then
    (s, .duplicateName)
  else ({ s with built := false, systems := s.systems ++ [system] }, .ok)

/-- `std::vector::resize`. -/
def resize {A : Type} (l : List A) (n : ℕ) (a : A) : List A :=
  l.take n ++ List.replicate (n - l.length) a

/-- `build_hazard_graph_`; it is called right after `order_` has been sorted. -/
def buildHazardGraph : SystemScheduler σ :=
  let g := MithAtomas.buildHazardGraph s.descriptorAt
  { s with
    dependents := List.ofFn fun i => (g.dependents i).map Fin.val
    inDegreeInitial := List.ofFn g.inDegreeInitial }

/-- `build_graph`. -/
def buildGraph : SystemScheduler σ × SchedulerStatus :=
  if s.built then (s, .alreadyBuilt)
  else
    let s₁ := { s with order := (buildOrder s.descriptorAt).map Fin.val }
    let s₂ := if s.mode = .parallel then { s₁.buildHazardGraph with pool := true } else s₁
    -- the names are set here, once; the times are set by each tick
    let timings := resize s.lastTimings s.systems.length {}
    ({ s₂ with
      lastTimings := timings.zipWith (fun t system => { t with name := system.describe.name })
        s.systems
      built := true }, .ok)

/-- The systems that `tick` runs in `Sequential` mode, in order. -/
def executed : List (System σ) :=
  s.order.filterMap fun idx => s.systems[idx]?

/-- `tick` in `Sequential` mode; `none` where it aborts. -/
def tick (x : σ) : Option σ :=
  if s.built then some (s.executed.foldl (fun x system => system.tick x) x) else none

/-- The hazard graph, by name: the system `b` is a dependent of the system `a`. -/
def HasEdge (a b : String) : Prop :=
  ∃ (i j : ℕ) (x y : System σ) (ds : List ℕ), s.systems[i]? = some x ∧ x.describe.name = a ∧
    s.dependents[i]? = some ds ∧ j ∈ ds ∧ s.systems[j]? = some y ∧ y.describe.name = b

/-- The initial in-degree of the system with a name. -/
def HasInDegree (a : String) (n : ℤ) : Prop :=
  ∃ (i : ℕ) (x : System σ), s.systems[i]? = some x ∧ x.describe.name = a ∧
    s.inDegreeInitial[i]? = some n

/-- The names of the systems, by index. -/
def names : List String :=
  s.systems.map fun system => system.describe.name

end SystemScheduler

/-- A call of a scheduler. -/
inductive SchedulerCall (σ : Type) where
  | registerSystem (system : System σ)
  | buildGraph

namespace SystemScheduler

/-- The scheduler after the call, and its status. -/
def call (s : SystemScheduler σ) : SchedulerCall σ → SystemScheduler σ × SchedulerStatus
  | .registerSystem system => s.registerSystem system
  | .buildGraph => s.buildGraph

/-- The scheduler after the calls. -/
def run (s : SystemScheduler σ) (calls : List (SchedulerCall σ)) : SystemScheduler σ :=
  calls.foldl (fun s c => (s.call c).1) s

/-- The systems that are to run before the system `y`: those it conflicts with that have smaller
names. -/
def conflictsBelow (y x : System σ) : Bool :=
  x.describe.name < y.describe.name ∧ haveHazard x.describe y.describe = true

/-- **What a build has left is that of the systems that are registered.** -/
structure UpToDate (s : SystemScheduler σ) : Prop where
  perm_order : s.order.Perm (List.range s.systems.length)
  pairwise_order : s.executed.Pairwise fun x y => x.describe.name < y.describe.name
  timings : s.lastTimings.map SystemTiming.name = s.names
  length_dependents : s.mode = .parallel → s.dependents.length = s.systems.length
  dependents : s.mode = .parallel → ∀ (i : ℕ) (x : System σ), s.systems[i]? = some x →
    ∃ ds : List ℕ, s.dependents[i]? = some ds ∧ ds.Nodup ∧
      ∀ j, j ∈ ds ↔ ∃ y, s.systems[j]? = some y ∧ conflictsBelow y x
  length_inDegreeInitial : s.mode = .parallel → s.inDegreeInitial.length = s.systems.length
  inDegreeInitial : s.mode = .parallel → ∀ (j : ℕ) (y : System σ), s.systems[j]? = some y →
    s.inDegreeInitial[j]? = some (s.systems.countP (conflictsBelow y) : ℤ)

/-- **The invariant.** -/
structure Canonical (s : SystemScheduler σ) : Prop where
  names_nodup : s.names.Nodup
  upToDate : s.built = true → s.UpToDate

variable {s s' : SystemScheduler σ}

/-! ### One call -/

theorem mem_names {a : String} : a ∈ s.names ↔ ∃ x ∈ s.systems, x.describe.name = a :=
  List.mem_map

theorem any_name_iff {system : System σ} :
    (s.systems.any fun existing => existing.describe.name = system.describe.name) = true ↔
      system.describe.name ∈ s.names := by
  simp [mem_names]

/-- What `register_system` does. -/
theorem registerSystem_cases (s : SystemScheduler σ) (system : System σ) :
    (system.describe.name ∈ s.names ∧ s.registerSystem system = (s, .duplicateName)) ∨
    (system.describe.name ∉ s.names ∧ s.registerSystem system
      = ({ s with built := false, systems := s.systems ++ [system] }, .ok)) := by
  unfold registerSystem
  split
  · next hin => exact .inl ⟨any_name_iff.mp hin, rfl⟩
  · next hout => exact .inr ⟨fun hin => hout (any_name_iff.mpr hin), rfl⟩

/-- Distinct names, by index. -/
theorem descriptorAt_name_injective (h : s.names.Nodup) :
    Function.Injective fun i => (s.descriptorAt i).name := by
  have hofFn : (List.ofFn fun i => (s.descriptorAt i).name) = s.names :=
    List.ofFn_getElem_eq_map s.systems fun system => system.describe.name
  rw [← hofFn] at h
  exact List.nodup_ofFn.mp h

/-- An index of a system. -/
theorem exists_fin {i : ℕ} {x : System σ} (h : s.systems[i]? = some x) :
    ∃ k : Fin s.systems.length, k.val = i ∧ s.systems[k] = x := by
  obtain ⟨hi, hx⟩ := List.getElem?_eq_some_iff.mp h
  exact ⟨⟨i, hi⟩, rfl, hx⟩

/-! ### A build -/

theorem buildGraph_of_built (h : s.built = true) : s.buildGraph = (s, .alreadyBuilt) :=
  if_pos h

theorem systems_buildGraph (s : SystemScheduler σ) : s.buildGraph.1.systems = s.systems := by
  unfold buildGraph buildHazardGraph
  split
  · rfl
  · simp only
    split <;> rfl

theorem mode_buildGraph (s : SystemScheduler σ) : s.buildGraph.1.mode = s.mode := by
  unfold buildGraph buildHazardGraph
  split
  · rfl
  · simp only
    split <;> rfl

theorem built_buildGraph (s : SystemScheduler σ) : s.buildGraph.1.built = true := by
  unfold buildGraph
  split
  · next h => exact h
  · rfl

theorem order_buildGraph (h : s.built = false) :
    s.buildGraph.1.order = (buildOrder s.descriptorAt).map Fin.val := by
  unfold buildGraph buildHazardGraph
  rw [h]
  simp only [Bool.false_eq_true, if_false]
  split <;> rfl

theorem timings_buildGraph (h : s.built = false) : s.buildGraph.1.lastTimings
    = (resize s.lastTimings s.systems.length {}).zipWith
        (fun t system => { t with name := system.describe.name }) s.systems := by
  unfold buildGraph
  rw [h]
  rfl

/-- In `Parallel` mode the hazard graph is built anew. -/
theorem hazardGraph_buildGraph (h : s.built = false) (hmode : s.mode = .parallel) :
    s.buildGraph.1.dependents
      = (List.ofFn fun i =>
          ((MithAtomas.buildHazardGraph s.descriptorAt).dependents i).map Fin.val) ∧
    s.buildGraph.1.inDegreeInitial
      = List.ofFn (MithAtomas.buildHazardGraph s.descriptorAt).inDegreeInitial := by
  unfold buildGraph
  rw [h]
  simp only [Bool.false_eq_true, if_false, if_pos hmode]
  exact ⟨rfl, rfl⟩

theorem length_resize {A : Type} (l : List A) (n : ℕ) (a : A) : (resize l n a).length = n := by
  unfold resize
  rw [List.length_append, List.length_take, List.length_replicate]
  omega

/-- Whatever the buffer held, the names in it are those of the systems. -/
theorem names_zipWith {timings : List SystemTiming} {systems : List (System σ)}
    (h : timings.length = systems.length) :
    (timings.zipWith (fun t system => { t with name := system.describe.name }) systems).map
      SystemTiming.name = systems.map fun system => system.describe.name := by
  refine List.ext_getElem ?_ fun i _ _ => ?_
  · rw [List.length_map, List.length_map, List.length_zipWith, h, min_self]
  · rw [List.getElem_map, List.getElem_map, List.getElem_zipWith]

/-- The systems at some indices. -/
theorem filterMap_getElem? (l : List (Fin s.systems.length)) :
    (l.map Fin.val).filterMap (fun idx => s.systems[idx]?) = l.map fun k => s.systems[k] := by
  -- the indices are in range, so none is left out
  rw [List.filterMap_map, ← List.filterMap_eq_map]
  exact List.filterMap_congr fun k _ => List.getElem?_eq_getElem k.isLt

theorem executed_perm (h : s.order.Perm (List.range s.systems.length)) :
    s.executed.Perm s.systems := by
  have hall : (List.range s.systems.length).filterMap (fun idx => s.systems[idx]?) = s.systems := by
    rw [← List.map_coe_finRange_eq_range, filterMap_getElem?, ← List.ofFn_eq_map]
    exact List.ofFn_getElem
  have hperm := h.filterMap fun idx => s.systems[idx]?
  rwa [hall] at hperm

/-- Which systems the hazard graph blocks on which. -/
theorem mem_dependents_iff (h : s.names.Nodup) {k l : Fin s.systems.length} :
    l ∈ (MithAtomas.buildHazardGraph s.descriptorAt).dependents k ↔
      conflictsBelow s.systems[l] s.systems[k] = true := by
  rw [mem_dependents (descriptorAt_name_injective h)]
  exact (decide_eq_true_iff ..).symm

theorem sum_ite_eq_countP {A : Type} (l : List A) (p : A → Bool) :
    ∑ k : Fin l.length, (if p l[k] = true then 1 else 0) = l.countP p := by
  have hmap : (List.ofFn fun k : Fin l.length => if p l[k] = true then 1 else 0)
      = l.map fun x => if p x = true then 1 else 0 :=
    List.ofFn_getElem_eq_map l fun x => if p x = true then 1 else 0
  rw [← List.sum_ofFn, hmap]
  clear hmap
  induction l with
  | nil => rfl
  | cons x l ih => rw [List.map_cons, List.sum_cons, ih, List.countP_cons, Nat.add_comm]

/-- The counters of the hazard graph. -/
theorem inDegreeInitial_eq (h : s.names.Nodup) (l : Fin s.systems.length) :
    (MithAtomas.buildHazardGraph s.descriptorAt).inDegreeInitial l
      = (s.systems.countP (conflictsBelow s.systems[l]) : ℤ) := by
  have hcount : ∀ k, ((MithAtomas.buildHazardGraph s.descriptorAt).dependents k).count l
      = if conflictsBelow s.systems[l] s.systems[k] = true then 1 else 0 := by
    intro k
    split
    · next hbelow =>
      exact List.count_eq_one_of_mem (dependents_nodup k) ((mem_dependents_iff h).mpr hbelow)
    · next hnot => exact List.count_eq_zero.mpr fun hmem => hnot ((mem_dependents_iff h).mp hmem)
  rw [buildHazardGraph_counted l, ← Nat.cast_sum, ← sum_ite_eq_countP]
  simp only [hcount]

/-- **A build leaves what is of the current systems**, whatever was in the vectors before. -/
theorem upToDate_buildGraph (hnames : s.names.Nodup) (h : s.built = false) :
    s.buildGraph.1.UpToDate := by
  have hsystems := systems_buildGraph s
  have horder := order_buildGraph h
  have hexecuted : s.buildGraph.1.executed
      = (buildOrder s.descriptorAt).map fun k => s.systems[k] := by
    unfold executed
    rw [hsystems, horder, filterMap_getElem?]
  have htable : ∀ {A : Type} {f : Fin s.systems.length → A} (k : Fin s.systems.length),
      (List.ofFn f)[k.val]? = some (f k) := by
    intro A f k
    rw [List.getElem?_ofFn, dif_pos k.isLt]
  refine ⟨?_, ?_, ?_, fun hmode => ?_, fun hmode i x hx => ?_, fun hmode => ?_,
    fun hmode j y hy => ?_⟩
  · -- `order_` was all the indices before the sort
    rw [horder, hsystems, ← List.map_coe_finRange_eq_range]
    exact (perm_buildOrder _).map Fin.val
  · -- with distinct names the sort is strict
    rw [hexecuted, List.pairwise_map]
    exact pairwise_buildOrder (descriptorAt_name_injective hnames)
  · -- a buffer of any length is resized, and each of its names is set
    unfold names
    rw [timings_buildGraph h, hsystems]
    exact names_zipWith (length_resize _ _ _)
  -- the rest is about `Parallel` mode, where both vectors are assigned
  all_goals
    rw [mode_buildGraph] at hmode
    obtain ⟨hdependents, hdegrees⟩ := hazardGraph_buildGraph h hmode
  · rw [hdependents, hsystems, List.length_ofFn]
  · rw [hsystems] at hx ⊢
    obtain ⟨k, rfl, rfl⟩ := exists_fin hx
    refine ⟨_, by rw [hdependents]; exact htable k, ?_, fun j => ?_⟩
    · exact (dependents_nodup k).map Fin.val_injective
    · rw [List.mem_map]
      constructor
      · rintro ⟨l, hl, rfl⟩
        exact ⟨_, List.getElem?_eq_getElem l.isLt, (mem_dependents_iff hnames).mp hl⟩
      · rintro ⟨y, hy, hbelow⟩
        obtain ⟨l, rfl, rfl⟩ := exists_fin hy
        exact ⟨l, (mem_dependents_iff hnames).mpr hbelow, rfl⟩
  · rw [hdegrees, hsystems, List.length_ofFn]
  · rw [hsystems] at hy ⊢
    obtain ⟨l, rfl, rfl⟩ := exists_fin hy
    rw [hdegrees, ← inDegreeInitial_eq hnames]
    exact htable l

/-! ### Runs -/

/-- A fresh scheduler. -/
theorem canonical_new (mode : SchedulerMode) : Canonical ({ mode } : SystemScheduler σ) where
  names_nodup := List.nodup_nil
  upToDate := by
    rintro ⟨⟩

theorem Canonical.registerSystem (h : s.Canonical) (system : System σ) :
    (s.registerSystem system).1.Canonical := by
  obtain ⟨-, heq⟩ | ⟨hnew, heq⟩ := registerSystem_cases s system
  · rw [heq]
    exact h
  · rw [heq]
    -- `built_` is cleared, so the vectors may be stale
    refine ⟨?_, by rintro ⟨⟩⟩
    show (List.map _ (s.systems ++ [system])).Nodup
    rw [List.map_append]
    exact h.names_nodup.append (List.nodup_singleton _) (List.disjoint_singleton.mpr hnew)

theorem Canonical.buildGraph (h : s.Canonical) : s.buildGraph.1.Canonical := by
  cases hbuilt : s.built with
  | true =>
    rw [buildGraph_of_built hbuilt]
    exact h
  | false =>
    -- only the names are kept from before
    refine ⟨?_, fun _ => upToDate_buildGraph h.names_nodup hbuilt⟩
    unfold names
    rw [systems_buildGraph]
    exact h.names_nodup

theorem Canonical.call (h : s.Canonical) (c : SchedulerCall σ) : (s.call c).1.Canonical := by
  cases c with
  | registerSystem system => exact h.registerSystem system
  | buildGraph => exact h.buildGraph

theorem Canonical.run (h : s.Canonical) (calls : List (SchedulerCall σ)) :
    (s.run calls).Canonical :=
  List.foldlRecOn (motive := Canonical) calls _ h fun _ ih c _ => ih.call c

/-- A call that is refused changes nothing. -/
theorem call_of_refused {c : SchedulerCall σ} (h : (s.call c).2 ≠ .ok) : (s.call c).1 = s := by
  cases c with
  | registerSystem system =>
    obtain ⟨-, heq⟩ | ⟨-, heq⟩ := registerSystem_cases s system
    · exact congrArg Prod.fst heq
    · exact absurd (congrArg Prod.snd heq) h
  | buildGraph =>
    cases hbuilt : s.built with
    | true => exact congrArg Prod.fst (buildGraph_of_built hbuilt)
    | false =>
      -- a build that is not refused is `Ok`
      refine absurd ?_ h
      show s.buildGraph.2 = .ok
      unfold SystemScheduler.buildGraph
      rw [hbuilt]
      rfl

theorem mode_call (s : SystemScheduler σ) (c : SchedulerCall σ) : (s.call c).1.mode = s.mode := by
  cases c with
  | registerSystem system =>
    obtain ⟨-, heq⟩ | ⟨-, heq⟩ := registerSystem_cases s system <;> exact congrArg (·.1.mode) heq
  | buildGraph => exact mode_buildGraph s

theorem mode_run (s : SystemScheduler σ) (calls : List (SchedulerCall σ)) :
    (s.run calls).mode = s.mode :=
  List.foldlRecOn (motive := fun t : SystemScheduler σ => t.mode = s.mode) calls _ rfl
    fun t ih c _ => (mode_call t c).trans ih

/-! ### Two orders of registration -/

/-- **The systems are executed by name**, in whatever order they were registered. -/
theorem UpToDate.executed_eq (h : s.UpToDate) (h' : s'.UpToDate)
    (hperm : s.systems.Perm s'.systems) : s.executed = s'.executed := by
  have hboth : s.executed.Perm s'.executed :=
    (executed_perm h.perm_order).trans (hperm.trans (executed_perm h'.perm_order).symm)
  -- two permutations of one list, both in strict order
  refine hboth.eq_of_pairwise (fun x y _ _ hlt hgt => ?_) h.pairwise_order h'.pairwise_order
  exact absurd hlt (lt_asymm hgt)

/-- The edges are those of the systems that conflict, from the smaller name to the larger. -/
theorem UpToDate.hasEdge_iff (h : s.UpToDate) (hmode : s.mode = .parallel) {a b : String} :
    s.HasEdge a b ↔ ∃ x ∈ s.systems, ∃ y ∈ s.systems, x.describe.name = a ∧ y.describe.name = b ∧
      conflictsBelow y x = true := by
  constructor
  · rintro ⟨i, j, x, y, ds, hx, rfl, hds, hj, hy, rfl⟩
    -- the vector has one list at `i`, and it is the one of `UpToDate`
    obtain ⟨ds', hds', -, hmem⟩ := h.dependents hmode i x hx
    rw [hds] at hds'
    obtain rfl := Option.some.inj hds'
    obtain ⟨y', hy', hbelow⟩ := (hmem j).mp hj
    rw [hy] at hy'
    obtain rfl := Option.some.inj hy'
    exact ⟨x, List.mem_of_getElem? hx, y, List.mem_of_getElem? hy, rfl, rfl, hbelow⟩
  · rintro ⟨x, hx, y, hy, rfl, rfl, hbelow⟩
    obtain ⟨i, hi⟩ := List.getElem?_of_mem hx
    obtain ⟨j, hj⟩ := List.getElem?_of_mem hy
    obtain ⟨ds, hds, -, hmem⟩ := h.dependents hmode i x hi
    exact ⟨i, j, x, y, ds, hi, rfl, hds, (hmem j).mpr ⟨y, hj, hbelow⟩, hj, rfl⟩

theorem UpToDate.hasInDegree_iff (h : s.UpToDate) (hmode : s.mode = .parallel) {a : String}
    {n : ℤ} : s.HasInDegree a n ↔
      ∃ y ∈ s.systems, y.describe.name = a ∧ (s.systems.countP (conflictsBelow y) : ℤ) = n := by
  constructor
  · rintro ⟨j, y, hy, rfl, hn⟩
    rw [h.inDegreeInitial hmode j y hy] at hn
    exact ⟨y, List.mem_of_getElem? hy, rfl, Option.some.inj hn⟩
  · rintro ⟨y, hy, rfl, rfl⟩
    obtain ⟨j, hj⟩ := List.getElem?_of_mem hy
    exact ⟨j, y, hj, rfl, h.inDegreeInitial hmode j y hj⟩

/-- Two built schedulers do the same: in `Sequential` mode they execute the same systems in the same
order, in `Parallel` mode they have the same hazard graph by name. -/
structure SameBuild (s s' : SystemScheduler σ) : Prop where
  built : s.built = true ∧ s'.built = true
  executed : s.executed = s'.executed
  tick : ∀ x, s.tick x = s'.tick x
  hasEdge : s.mode = .parallel → ∀ a b, s.HasEdge a b ↔ s'.HasEdge a b
  hasInDegree : s.mode = .parallel → ∀ a n, s.HasInDegree a n ↔ s'.HasInDegree a n

theorem Canonical.sameBuild (h : s.Canonical) (h' : s'.Canonical) (hmode : s.mode = s'.mode)
    (hperm : s.systems.Perm s'.systems) (hbuilt : s.built = true) (hbuilt' : s'.built = true) :
    SameBuild s s' := by
  have hup := h.upToDate hbuilt
  have hup' := h'.upToDate hbuilt'
  have hexecuted := hup.executed_eq hup' hperm
  refine ⟨⟨hbuilt, hbuilt'⟩, hexecuted, fun x => ?_, fun hpar a b => ?_, fun hpar a n => ?_⟩
  · unfold SystemScheduler.tick
    rw [hbuilt, hbuilt', hexecuted]
  · rw [hup.hasEdge_iff hpar, hup'.hasEdge_iff (hmode ▸ hpar)]
    simp only [hperm.mem_iff]
  · rw [hup.hasInDegree_iff hpar, hup'.hasInDegree_iff (hmode ▸ hpar)]
    simp only [hperm.mem_iff, hperm.countP_eq]

/-- The calls that register the systems in order and build the graph. -/
def registerAll (systems : List (System σ)) : List (SchedulerCall σ) :=
  systems.map .registerSystem ++ [.buildGraph]

/-- Systems with distinct names are all registered. -/
theorem systems_run_registerAll (mode : SchedulerMode) {systems : List (System σ)}
    (h : (systems.map fun system => system.describe.name).Nodup) :
    (({ mode } : SystemScheduler σ).run (registerAll systems)).systems = systems := by
  have hall : (({ mode } : SystemScheduler σ).run (systems.map .registerSystem)).systems
      = systems := by
    induction systems using List.reverseRecOn with
    | nil => rfl
    | append_singleton systems system ih =>
      rw [List.map_append, List.nodup_append] at h
      obtain ⟨hnodup, -, hnew⟩ := h
      have hbefore := ih hnodup
      rw [List.map_append]
      unfold run at hbefore ⊢
      rw [List.foldl_append]
      show ((SystemScheduler.registerSystem _ system).1).systems = _
      -- by induction from the end: the last name is none of those before it
      obtain ⟨hin, -⟩ | ⟨-, heq⟩ := registerSystem_cases
        ((systems.map SchedulerCall.registerSystem).foldl (fun s c => (s.call c).1)
          ({ mode } : SystemScheduler σ)) system
      · unfold names at hin
        rw [hbefore] at hin
        exact absurd rfl (hnew _ hin _ (List.mem_singleton_self _))
      · rw [heq]
        show _ ++ [system] = _
        rw [hbefore]
  unfold registerAll run at *
  rw [List.foldl_append]
  exact (systems_buildGraph _).trans hall

theorem built_run_registerAll (mode : SchedulerMode) (systems : List (System σ)) :
    (({ mode } : SystemScheduler σ).run (registerAll systems)).built = true := by
  unfold registerAll run
  rw [List.foldl_append]
  exact built_buildGraph _

end SystemScheduler

open SystemScheduler in
/-- **The scheduler's graph is canonical.** After any calls of `register_system` and `build_graph`
the names are distinct, a call that is refused changes nothing, and if `built_` is set, the order,
the timing buffer and the hazard graph are those of the systems that are registered. Two schedulers
that have been built with the same systems do the same, and so do two orders of registration of
systems with distinct names. -/
theorem scheduler_graph_canonical (mode : SchedulerMode) (calls : List (SchedulerCall σ)) :
    (({ mode } : SystemScheduler σ).run calls).names.Nodup ∧
    (∀ c, ((({ mode } : SystemScheduler σ).run calls).call c).2 ≠ .ok →
      ((({ mode } : SystemScheduler σ).run calls).call c).1
        = ({ mode } : SystemScheduler σ).run calls) ∧
    ((({ mode } : SystemScheduler σ).run calls).built = true →
      (({ mode } : SystemScheduler σ).run calls).UpToDate) ∧
    (∀ calls' : List (SchedulerCall σ),
      (({ mode } : SystemScheduler σ).run calls).systems.Perm
        (({ mode } : SystemScheduler σ).run calls').systems →
      (({ mode } : SystemScheduler σ).run calls).built = true →
      (({ mode } : SystemScheduler σ).run calls').built = true →
      SameBuild (({ mode } : SystemScheduler σ).run calls)
        (({ mode } : SystemScheduler σ).run calls')) ∧
    ∀ systems systems' : List (System σ), systems.Perm systems' →
      (systems.map fun system => system.describe.name).Nodup →
      SameBuild (({ mode } : SystemScheduler σ).run (registerAll systems))
        (({ mode } : SystemScheduler σ).run (registerAll systems')) := by
  have hcanonical : ∀ calls, (({ mode } : SystemScheduler σ).run calls).Canonical :=
    fun calls => (canonical_new mode).run calls
  have hmode : ∀ calls, (({ mode } : SystemScheduler σ).run calls).mode = mode :=
    fun calls => mode_run _ calls
  refine ⟨(hcanonical calls).names_nodup, fun c => call_of_refused, (hcanonical calls).upToDate,
    fun calls' hperm hbuilt hbuilt' => ?_, fun systems systems' hperm hnames => ?_⟩
  · exact (hcanonical calls).sameBuild (hcanonical calls') ((hmode _).trans (hmode _).symm) hperm
      hbuilt hbuilt'
  · have hnames' : (systems'.map fun system => system.describe.name).Nodup :=
      (hperm.map _).nodup_iff.mp hnames
    refine (hcanonical _).sameBuild (hcanonical _) ((hmode _).trans (hmode _).symm) ?_
      (built_run_registerAll mode systems) (built_run_registerAll mode systems')
    rw [systems_run_registerAll mode hnames, systems_run_registerAll mode hnames']
    exact hperm

end MithAtomas
