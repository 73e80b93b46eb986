import MithAtomas.Framework.Footprint
import MithAtomas.Core.Scheduler

/-!
# Any order the hazard graph allows does the same

The reason a parallel tick may be run at all. The state the systems share is seen through cells
(`Footprint.Cells`), one for each component type, each resource and each system's own fields
(`Location`), and a system respects its descriptor when its tick has the footprint it declares
(`RespectsDescriptor`). Two systems without a hazard then have disjoint footprints, so they commute
(`RespectsDescriptor.commute`), and every order that respects the edges ends in the state of the
sequential order (`runInOrder_eq_sequential`). The graph itself is never in the way of such an
order: it has no cycle, and as long as a system is left, one is left that waits for nothing.
-/

namespace MithAtomas

open Footprint LinearExtension

variable {N : ℕ} {σ : Type}

/-- What a system can read or write. -/
inductive Location (N : ℕ) where
  | component (c : ComponentTypeID)
  | resource (r : ResourceID)
  /-- the fields of the system with this index -/
  | own (i : Fin N)
  deriving DecidableEq

namespace SystemDescriptor

variable (d : SystemDescriptor)

/-- What the descriptor declares to read. -/
def reads : Set (Location N) :=
  {l | (∃ c ∈ d.readsComponents, l = .component c) ∨ ∃ r ∈ d.readsResources, l = .resource r}

/-- What the descriptor declares to write. -/
def writes : Set (Location N) :=
  {l | (∃ c ∈ d.writesComponents, l = .component c) ∨ ∃ r ∈ d.writesResources, l = .resource r}

theorem own_notMem_reads (i : Fin N) : Location.own i ∉ d.reads := by
  rintro (⟨c, -, h⟩ | ⟨r, -, h⟩) <;> cases h

theorem own_notMem_writes (i : Fin N) : Location.own i ∉ d.writes := by
  rintro (⟨c, -, h⟩ | ⟨r, -, h⟩) <;> cases h

/-- Without a hazard, what one writes the other neither reads nor writes. -/
theorem disjoint_writes_of_not_haveHazard {a b : SystemDescriptor} (h : haveHazard a b = false) :
    Disjoint (a.writes (N := N)) (b.reads ∪ b.writes) := by
  have hno : ¬ haveHazard a b = true := by rw [h]; exact Bool.false_ne_true
  rw [haveHazard_iff] at hno
  push Not at hno
  obtain ⟨h₁, -, h₃, h₄, -, h₆⟩ := hno
  rw [Set.disjoint_left]
  rintro l (⟨c, hc, rfl⟩ | ⟨r, hr, rfl⟩) hl
  · rcases hl with (⟨c', hc', he⟩ | ⟨r', -, he⟩) | (⟨c', hc', he⟩ | ⟨r', -, he⟩)
    · cases he; exact h₁ c hc hc'
    · cases he
    · cases he; exact h₃ c hc hc'
    · cases he
  · rcases hl with (⟨c', -, he⟩ | ⟨r', hr', he⟩) | (⟨c', -, he⟩ | ⟨r', hr', he⟩)
    · cases he
    · cases he; exact h₄ r hr hr'
    · cases he
    · cases he; exact h₆ r hr hr'

end SystemDescriptor

/-- **The contract of a system.** Its tick changes only what it lists as writes and its own fields,
and its effect depends only on what it lists as reads or writes and its own fields. -/
def RespectsDescriptor (C : Cells σ (Location N)) (i : Fin N) (sys : System σ) : Prop :=
  Touches C sys.tick sys.describe.reads (sys.describe.writes ∪ {.own i})

section

variable {C : Cells σ (Location N)} {systems : Fin N → System σ}

/-- The footprints of two systems without a hazard are disjoint: their own fields are not shared. -/
theorem disjoint_footprints {i j : Fin N} (hij : i ≠ j) {a b : SystemDescriptor}
    (h : haveHazard a b = false) :
    Disjoint (a.writes ∪ {Location.own i}) (b.reads ∪ (b.writes ∪ {Location.own j})) := by
  rw [Set.disjoint_left]
  rintro l (hl | rfl)
  · rintro (hr | hw | rfl)
    · exact Set.disjoint_left.mp (SystemDescriptor.disjoint_writes_of_not_haveHazard h) hl
        (Or.inl hr)
    · exact Set.disjoint_left.mp (SystemDescriptor.disjoint_writes_of_not_haveHazard h) hl
        (Or.inr hw)
    · exact a.own_notMem_writes j hl
  · rintro (hr | hw | he)
    · exact b.own_notMem_reads i hr
    · exact b.own_notMem_writes i hw
    · exact hij (Location.own.inj he)

/-- Systems without a hazard commute. -/
theorem RespectsDescriptor.commute {i j : Fin N} (hij : i ≠ j)
    (hi : RespectsDescriptor C i (systems i)) (hj : RespectsDescriptor C j (systems j))
    (h : haveHazard (systems i).describe (systems j).describe = false) :
    Function.Commute (systems i).tick (systems j).tick := by
  refine Touches.commute hi hj (disjoint_footprints hij h) (disjoint_footprints hij.symm ?_)
  rw [haveHazard_comm]
  exact h

/-- **Order-independence.** Every order that respects the edges ends where the sequential one
does. -/
theorem runInOrder_eq_sequential
    (hnames : Function.Injective fun i => (descriptors systems i).name)
    (hrespects : ∀ i, RespectsDescriptor C i (systems i)) {order : List (Fin N)}
    (hperm : order.Perm (List.finRange N))
    (hext : LinearExtends (ConflictsBefore (descriptors systems)) order) (s : σ) :
    runInOrder systems order s = tickSequential systems s := by
  refine execute_eq_of_linearExtends (E := ConflictsBefore (descriptors systems))
    (hperm.trans (perm_buildOrder _).symm) (hperm.nodup_iff.mpr (List.nodup_finRange N)) hext
    (linearExtends_buildOrder hnames) (fun i _ j _ hij => ?_) s
  cases h : haveHazard (descriptors systems i) (descriptors systems j) with
  | false => exact .inl ((hrespects i).commute hij (hrespects j) h)
  | true =>
    rcases lt_trichotomy (descriptors systems i).name
      (descriptors systems j).name with hlt | he | hgt
    · exact .inr (.inl ⟨hlt, h⟩)
    · exact absurd (hnames he) hij
    · exact .inr (.inr ⟨hgt, haveHazard_symm h⟩)

/-- A parallel tick without a stale load refines the sequential tick. -/
theorem parallel_eq_sequential
    (hnames : Function.Injective fun i => (descriptors systems i).name)
    (hrespects : ∀ i, RespectsDescriptor C i (systems i)) {order : List (Fin N)}
    (h : ParallelOrder (descriptors systems) order) (s : σ) :
    runInOrder systems order s = tickSequential systems s :=
  runInOrder_eq_sequential hnames hrespects (h.perm hnames) (h.linearExtends hnames) s

end

/-! ### The graph -/

/-- The initial counter of `j` is the number of systems with an edge into `j`. -/
theorem inDegreeInitial_eq_card (desc : Fin N → SystemDescriptor) (j : Fin N) :
    (buildHazardGraph desc).inDegreeInitial j
      = (Finset.univ.filter fun i => j ∈ (buildHazardGraph desc).dependents i).card := by
  rw [buildHazardGraph_counted j, Finset.card_filter, Nat.cast_sum]
  refine Finset.sum_congr rfl fun i _ => ?_
  by_cases hij : j ∈ (buildHazardGraph desc).dependents i
  · rw [if_pos hij, List.count_eq_one_of_mem (dependents_nodup i) hij]
  · rw [if_neg hij, List.count_eq_zero.mpr hij]

/-- **Confluence of the hazard graph.** For systems that respect their descriptors, every order of
one execution each that respects the edges does what the sequential order does; the counters are
the in-degrees; the edges form no cycle; and as long as a system is left, one is left all of whose
predecessors have run. -/
theorem hazard_graph_confluent (C : Cells σ (Location N)) (systems : Fin N → System σ)
    (hnames : Function.Injective fun i => (descriptors systems i).name)
    (hrespects : ∀ i, RespectsDescriptor C i (systems i)) :
    (∀ order : List (Fin N), order.Perm (List.finRange N) →
      (order.Pairwise fun a b => a ∉ (buildHazardGraph (descriptors systems)).dependents b) →
      ∀ s, runInOrder systems order s = tickSequential systems s) ∧
    (∀ j, (buildHazardGraph (descriptors systems)).inDegreeInitial j
      = (Finset.univ.filter
          fun i => j ∈ (buildHazardGraph (descriptors systems)).dependents i).card) ∧
    (∀ i, ¬ Relation.TransGen
      (fun a b => b ∈ (buildHazardGraph (descriptors systems)).dependents a) i i) ∧
    (∀ finished : Finset (Fin N), finished ≠ Finset.univ →
      ∃ j ∉ finished, ∀ i, j ∈ (buildHazardGraph (descriptors systems)).dependents i →
        i ∈ finished) := by
  refine ⟨fun order hperm hpair s => ?_, inDegreeInitial_eq_card _, fun i => ?_,
    fun finished hne => ?_⟩
  · have hext : LinearExtends (ConflictsBefore (descriptors systems)) order :=
      hpair.imp fun hab hba => hab ((mem_dependents hnames).mpr hba)
    exact runInOrder_eq_sequential hnames hrespects hperm hext s
  · exact acyclic_of_rank
      (fun _ _ hab => (dispatchGraph (descriptors systems) hnames).rank_lt hab) i
  · exact ready_of_rank
      (fun _ _ hab => (dispatchGraph (descriptors systems) hnames).rank_lt hab) hne

/-- A system that counts in component 1, one that copies it into a field of its own, and one that
counts in component 2. -/
def countAndCopy : Fin 3 → System (Location 3 → ℕ) :=
  ![⟨⟨"Count", [], [1], [], []⟩, fun s => Function.update s (.component 1) (s (.component 1) + 1)⟩,
    ⟨⟨"Reader", [1], [], [], []⟩, fun s => Function.update s (.own 1) (s (.component 1))⟩,
    ⟨⟨"Tally", [], [2], [], []⟩, fun s => Function.update s (.component 2) (s (.component 2) + 1)⟩]

/-- The third can go first, although its name is the last. -/
theorem countAndCopy_confluent :
    (∀ i, RespectsDescriptor (Cells.pi (Location 3) fun _ => ℕ) i (countAndCopy i)) ∧
      buildOrder (descriptors countAndCopy) = [0, 1, 2] ∧
      ∀ s, runInOrder countAndCopy [2, 0, 1] s = tickSequential countAndCopy s := by
  have hcount : RespectsDescriptor (Cells.pi (Location 3) fun _ => ℕ) 0 (countAndCopy 0) := by
    have hmem : Location.component 1 ∈ (countAndCopy 0).describe.writes (N := 3) :=
      Or.inl ⟨1, List.mem_singleton_self _, rfl⟩
    exact touches_update (Or.inl hmem) fun s s' hagree =>
      congrArg (· + 1) (hagree _ (Or.inr (Or.inl hmem)))
  have hreader : RespectsDescriptor (Cells.pi (Location 3) fun _ => ℕ) 1 (countAndCopy 1) := by
    have hmem : Location.component 1 ∈ (countAndCopy 1).describe.reads (N := 3) :=
      Or.inl ⟨1, List.mem_singleton_self _, rfl⟩
    exact touches_update (Or.inr rfl) fun s s' hagree => hagree _ (Or.inl hmem)
  have htally : RespectsDescriptor (Cells.pi (Location 3) fun _ => ℕ) 2 (countAndCopy 2) := by
    have hmem : Location.component 2 ∈ (countAndCopy 2).describe.writes (N := 3) :=
      Or.inl ⟨2, List.mem_singleton_self _, rfl⟩
    exact touches_update (Or.inl hmem) fun s s' hagree =>
      congrArg (· + 1) (hagree _ (Or.inr (Or.inl hmem)))
  have hrespects : ∀ i, RespectsDescriptor (Cells.pi (Location 3) fun _ => ℕ) i
    (countAndCopy i) := by
    intro i
    fin_cases i
    · exact hcount
    · exact hreader
    · exact htally
  refine ⟨hrespects, by decide, fun s => ?_⟩
  exact (hazard_graph_confluent _ countAndCopy (by decide) hrespects).1 [2, 0, 1] (by decide)
    (by decide) s

end MithAtomas
