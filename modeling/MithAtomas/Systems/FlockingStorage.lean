import MithAtomas.Comms.NeighbourTableHistory
import MithAtomas.Comms.RadiusQuery
import MithAtomas.Systems.FlockingSystem

/-!
# Flocking and the storage of the neighbours

What `FlockingSystem::tick` computes is a matter of which neighbours are in view, not of how the
table holds them. `fullScan` says so: the new velocity from a list of neighbours, without a table.
In exact arithmetic, whatever the square root, the order of the list is of no account
(`exactScan_perm`), and `tick` is a full scan of the entries in view (`exactTick?_eq`), in whatever
cells they lie, as long as these fit.

`flocking_storage` is the result, over any history of calls.
-/

namespace MithAtomas

namespace FlockingSystem

/-- The entries in view: those within the vision radius, or all when it is off. -/
def inView {F : Type} [Scalar F] (params : Params F) (selfPos : PositionComponent F)
    (nbs : List (Entry F)) : List (Entry F) :=
  if 0 < params.visionRadiusM then
    nbs.filter fun e => e.position.distSq selfPos ≤ params.visionRadiusM * params.visionRadiusM
  else nbs

section

variable {F : Type} [FloatScalar F]

/-- The new velocity from these neighbours. -/
def fullScan (params : Params F) (selfPos : PositionComponent F) (selfVel : VelocityComponent F)
    (deltaTime : F) (nbs : List (Entry F)) : VelocityComponent F :=
  let s := nbs.foldl (consider params selfPos) Sums.zero
  if s.n = 0 then selfVel
  else clampSpeed params (accelerate params selfPos selfVel deltaTime s)

/-- A table without entries has nothing within any radius. -/
theorem forEachWithin_of_nil {nt : NeighbourTable F} (h : nt.entries = [])
    (centre : PositionComponent F) (radiusM : F) : nt.forEachWithin centre radiusM = [] := by
  unfold NeighbourTable.forEachWithin
  rw [h]
  -- with cells and without: an index has no entry
  split
  · rfl
  · exact List.filterMap_eq_nil_iff.mpr fun idx _ => rfl

/-- The early return agrees with the scan. -/
theorem tick_eq_fullScan (sys : FlockingSystem F) (nt : NeighbourTable F)
    (selfPos : PositionComponent F) (selfVel : VelocityComponent F) (deltaTime : F) :
    sys.tick nt selfPos selfVel deltaTime =
      fullScan sys.params selfPos selfVel deltaTime (seen sys.params nt selfPos) := by
  unfold tick
  split
  · next hnil =>
    have hseen : seen sys.params nt selfPos = [] := by
      unfold seen
      split
      · exact forEachWithin_of_nil hnil _ _
      · exact hnil
    rw [hseen]
    rfl
  · rfl

end

/-! ### Exact arithmetic -/

/-- Exact arithmetic with any square root. -/
abbrev withSqrt (sqrt : ℚ → ℚ) : FloatScalar ℚ where
  sqrt := sqrt
  ofBits := FloatScalar.ofBits
  toBits := FloatScalar.toBits

/-- `tick`, in exact arithmetic. -/
def exactTick (sqrt : ℚ → ℚ) (sys : FlockingSystem ℚ) (nt : NeighbourTable ℚ)
    (selfPos : PositionComponent ℚ) (selfVel : VelocityComponent ℚ) (deltaTime : ℚ) :
    VelocityComponent ℚ :=
  letI := withSqrt sqrt
  sys.tick nt selfPos selfVel deltaTime

/-- `fullScan`, in exact arithmetic. -/
def exactScan (sqrt : ℚ → ℚ) (params : Params ℚ) (selfPos : PositionComponent ℚ)
    (selfVel : VelocityComponent ℚ) (deltaTime : ℚ) (nbs : List (Entry ℚ)) : VelocityComponent ℚ :=
  letI := withSqrt sqrt
  fullScan params selfPos selfVel deltaTime nbs

variable {sqrt : ℚ → ℚ} {params : Params ℚ} {selfPos : PositionComponent ℚ}
  {selfVel : VelocityComponent ℚ} {deltaTime : ℚ}

/-- What a neighbour adds to the separation. -/
def push (sqrt : ℚ → ℚ) (params : Params ℚ) (selfPos : PositionComponent ℚ) (nb : Entry ℚ) :
    VelocityComponent ℚ :=
  letI := withSqrt sqrt
  (consider params selfPos Sums.zero nb).sep

/-- Every accumulator is a sum over the neighbours. -/
theorem consider_eq (s : Sums ℚ) (nb : Entry ℚ) :
    letI := withSqrt sqrt
    let p := push sqrt params selfPos nb
    consider params selfPos s nb =
      { sep := ⟨s.sep.vx + p.vx, s.sep.vy + p.vy, s.sep.vz + p.vz⟩
        align := ⟨s.align.vx + nb.velocity.vx, s.align.vy + nb.velocity.vy,
          s.align.vz + nb.velocity.vz⟩
        coh := ⟨s.coh.x + nb.position.x, s.coh.y + nb.position.y, s.coh.z + nb.position.z⟩
        n := s.n + 1 } := by
  unfold push consider Sums.zero
  dsimp only
  -- a neighbour at the same place, or out of the separation radius, adds zero
  split
  · simp only [zero_add]
  · simp only [add_zero]

/-- **Two neighbours may be considered in either order.** -/
theorem consider_right_comm (s : Sums ℚ) (a b : Entry ℚ) :
    letI := withSqrt sqrt
    consider params selfPos (consider params selfPos s a) b =
      consider params selfPos (consider params selfPos s b) a := by
  simp only [consider_eq, add_right_comm]

/-- **The order of the neighbours is of no account.** -/
theorem exactScan_perm {nbs nbs' : List (Entry ℚ)} (h : nbs.Perm nbs') :
    exactScan sqrt params selfPos selfVel deltaTime nbs =
      exactScan sqrt params selfPos selfVel deltaTime nbs' := by
  unfold exactScan fullScan
  rw [h.foldl_eq' fun a _ b _ s => consider_right_comm s a b]

/-- What the query for this system computes fits, if it looks into the grid. -/
def Fits (sys : FlockingSystem ℚ) (selfPos : PositionComponent ℚ) (nt : NeighbourTable ℚ) : Prop :=
  0 < sys.params.visionRadiusM → 0 < nt.cellSizeM → nt.QueryFits selfPos sys.params.visionRadiusM

/-- **A tick is a scan of what is in view.** -/
theorem exactTick_eq {sys : FlockingSystem ℚ} {nt : NeighbourTable ℚ} (h : nt.Indexed)
    (hfits : Fits sys selfPos nt) : exactTick sqrt sys nt selfPos selfVel deltaTime =
      exactScan sqrt sys.params selfPos selfVel deltaTime
        (inView sys.params selfPos nt.entries) := by
  let := withSqrt sqrt
  have hperm : (seen sys.params nt selfPos).Perm (inView sys.params selfPos nt.entries) := by
    unfold seen inView
    split
    · next hpos => exact h.forEachWithin_perm hpos.le (hfits hpos)
    · exact List.Perm.refl _
  exact (tick_eq_fullScan sys nt selfPos selfVel deltaTime).trans (exactScan_perm hperm)

/-- The neighbours that count, with the conversions of the query checked. -/
def seen? (params : Params ℚ) (nt : NeighbourTable ℚ) (selfPos : PositionComponent ℚ) :
    Option (List (Entry ℚ)) :=
  if 0 < params.visionRadiusM then nt.forEachWithin? selfPos params.visionRadiusM
  else some nt.entries

/-- `tick`, in exact arithmetic, with the conversions of its query checked. -/
def exactTick? (sqrt : ℚ → ℚ) (sys : FlockingSystem ℚ) (nt : NeighbourTable ℚ)
    (selfPos : PositionComponent ℚ) (selfVel : VelocityComponent ℚ) (deltaTime : ℚ) :
    Option (VelocityComponent ℚ) :=
  if nt.entries = [] then some selfVel
  else (seen? sys.params nt selfPos).map (exactScan sqrt sys.params selfPos selfVel deltaTime)

/-- Where what it computes fits, it is the tick. -/
theorem exactTick?_eq_some {sys : FlockingSystem ℚ} {nt : NeighbourTable ℚ}
    (hfits : Fits sys selfPos nt) : exactTick? sqrt sys nt selfPos selfVel deltaTime =
      some (exactTick sqrt sys nt selfPos selfVel deltaTime) := by
  let := withSqrt sqrt
  have hseen : seen? sys.params nt selfPos = some (seen sys.params nt selfPos) := by
    unfold seen? seen
    split
    · next hpos => exact NeighbourTable.forEachWithin?_eq (hfits hpos)
    · rfl
  unfold exactTick?
  rw [hseen]
  split
  · next hnil =>
    unfold exactTick tick
    rw [if_pos hnil]
  · exact congrArg some (tick_eq_fullScan sys nt selfPos selfVel deltaTime).symm

theorem exactTick?_eq {sys : FlockingSystem ℚ} {nt : NeighbourTable ℚ} (h : nt.Indexed)
    (hfits : Fits sys selfPos nt) : exactTick? sqrt sys nt selfPos selfVel deltaTime =
      some (exactScan sqrt sys.params selfPos selfVel deltaTime
        (inView sys.params selfPos nt.entries)) := by
  rw [exactTick?_eq_some hfits, exactTick_eq h hfits]

theorem inView_perm {nbs nbs' : List (Entry ℚ)} (h : nbs.Perm nbs') :
    (inView params selfPos nbs).Perm (inView params selfPos nbs') := by
  unfold inView
  split
  · exact h.filter _
  · exact h

end FlockingSystem

/-! ### What a table contains -/

namespace NeighbourTable

section

variable {F : Type} [Scalar F] {t t' : NeighbourTable F} {calls calls' : List (Call F)}

omit [Scalar F] in
/-- Tables with the same contents have the same entries, in some order. -/
theorem Distinct.entries_perm (h : t.Distinct) (h' : t'.Distinct)
    (hfind : ∀ hid, t.find hid = t'.find hid) : t.entries.Perm t'.entries := by
  -- the entries are those that are found, and none is there twice
  refine (List.perm_ext_iff_of_nodup h.of_map h'.of_map).mpr fun e => ?_
  have he : t.find e.hid = some e ↔ e ∈ t.entries := h.find_iff.trans (and_iff_left rfl)
  have he' : t'.find e.hid = some e ↔ e ∈ t'.entries := h'.find_iff.trans (and_iff_left rfl)
  rw [← he, hfind, he']

/-- The entry that the call stores. -/
def Call.inserted : Call F → Option (Entry F)
  | .upsert sv now rssi => some (Entry.ofBeacon sv now rssi)
  | _ => none

/-- The call takes no entry away. -/
def Call.Builds : Call F → Prop
  | .upsert _ _ _ => True
  | .ageOut _ _ => False
  | .clear => False
  | .setCellSizeM _ => True

/-- What has been stored, in order. -/
def insertions (calls : List (Call F)) : List (Entry F) :=
  calls.filterMap Call.inserted

/-- Of each peer the same has been stored, in the same order. -/
def SameUpdates (calls calls' : List (Call F)) : Prop :=
  ∀ hid, (insertions calls).filter (·.hid = hid) = (insertions calls').filter (·.hid = hid)

/-- The contents are what was stored last of each peer. -/
theorem find_run_of_builds (h : ∀ c ∈ calls, c.Builds) (hid : HierarchicalID) :
    ((empty : NeighbourTable F).run calls).find hid
      = ((insertions calls).filter (·.hid = hid)).getLast? := by
  -- from the last call: it replaces the entry of its peer, or changes no entry
  induction calls using List.reverseRecOn with
  | nil => rfl
  | append_singleton calls c ih =>
    have hrun : (empty : NeighbourTable F).run (calls ++ [c])
        = ((empty : NeighbourTable F).run calls).apply c := List.foldl_concat _ _ _ _
    have ih := ih fun c' hc' => h c' (List.mem_append_left _ hc')
    have hc := h c (List.mem_append_right _ (List.mem_singleton_self c))
    rw [hrun, insertions, List.filterMap_append, ← insertions, List.filter_append]
    cases c with
    | upsert sv now rssi =>
      have hlast : (List.filterMap Call.inserted [.upsert sv now rssi]).filter (·.hid = hid)
          = if sv.id = hid then [Entry.ofBeacon sv now rssi] else [] := by
        show [Entry.ofBeacon sv now rssi].filter _ = _
        rw [List.filter_singleton, Bool.cond_decide]
        rfl
      show (((empty : NeighbourTable F).run calls).upsert sv now rssi).find hid = _
      rw [hlast, (distinct_empty.run calls).find_upsert, ih]
      split
      · rw [List.getLast?_append_of_ne_nil _ (List.cons_ne_nil _ _)]
        rfl
      · rw [List.append_nil]
    | ageOut now timeout => exact absurd hc id
    | clear => exact absurd hc id
    | setCellSizeM size =>
      have hsame : (((empty : NeighbourTable F).run calls).setCellSizeM size).entries
          = ((empty : NeighbourTable F).run calls).entries := entries_rebuildGrid _
      show (((empty : NeighbourTable F).run calls).setCellSizeM size).find hid = _
      rw [find, hsame, ← find, ih]
      exact congrArg List.getLast? (List.append_nil _).symm

/-- **The order between peers is of no account.** -/
theorem SameUpdates.find_run (h : SameUpdates calls calls') (hcalls : ∀ c ∈ calls, c.Builds)
    (hcalls' : ∀ c ∈ calls', c.Builds) (hid : HierarchicalID) :
    ((empty : NeighbourTable F).run calls).find hid
      = ((empty : NeighbourTable F).run calls').find hid := by
  rw [find_run_of_builds hcalls, find_run_of_builds hcalls', h hid]

omit [Scalar F] in
/-- Insertions of different peers, in any order. -/
theorem sameUpdates_of_perm (h : (insertions calls).Perm (insertions calls'))
    (hdistinct : ((insertions calls).map Entry.hid).Nodup) : SameUpdates calls calls' := by
  intro hid
  have hperm := h.filter (·.hid = hid)
  -- a peer is inserted once at most
  have hone : ((insertions calls).filter (·.hid = hid)).length ≤ 1 := by
    have hcount := List.nodup_iff_count_le_one.mp hdistinct hid
    rw [List.count, List.countP_map, List.countP_eq_length_filter] at hcount
    exact hcount
  generalize (insertions calls).filter (·.hid = hid) = l at hperm hone ⊢
  match l, hone, hperm with
  | [], _, hperm => exact (List.nil_perm.mp hperm).symm
  | [e], _, hperm => exact List.singleton_perm.mp hperm

end

end NeighbourTable

/-! ### The result -/

namespace FlockingSystem

open NeighbourTable

/-- The velocity after a tick with the table that these calls have made. -/
def velocityAfter? (sqrt : ℚ → ℚ) (sys : FlockingSystem ℚ) (selfPos : PositionComponent ℚ)
    (selfVel : VelocityComponent ℚ) (deltaTime : ℚ) (calls : List (NeighbourTable.Call ℚ)) :
    Option (VelocityComponent ℚ) := do
  let nt ← (empty : NeighbourTable ℚ).run? calls
  exactTick? sqrt sys nt selfPos selfVel deltaTime

/-- What the calls and then the tick compute fits. -/
structure HistoryFits (sys : FlockingSystem ℚ) (selfPos : PositionComponent ℚ)
    (calls : List (NeighbourTable.Call ℚ)) : Prop where
  run : (empty : NeighbourTable ℚ).RunFits calls
  query : Fits sys selfPos ((empty : NeighbourTable ℚ).run calls)

variable {sys : FlockingSystem ℚ} {calls calls' : List (NeighbourTable.Call ℚ)}

theorem HistoryFits.velocityAfter?_eq (h : HistoryFits sys selfPos calls) :
    velocityAfter? sqrt sys selfPos selfVel deltaTime calls =
      some (exactScan sqrt sys.params selfPos selfVel deltaTime
        (inView sys.params selfPos ((empty : NeighbourTable ℚ).run calls).entries)) := by
  unfold velocityAfter?
  rw [(cellsFit_empty.run h.run).1]
  exact exactTick?_eq (indexed_empty.run calls) h.query

theorem HistoryFits.velocityAfter?_congr (h : HistoryFits sys selfPos calls)
    (h' : HistoryFits sys selfPos calls')
    (hfind : ∀ hid, ((empty : NeighbourTable ℚ).run calls).find hid
      = ((empty : NeighbourTable ℚ).run calls').find hid) :
    ∃ v, velocityAfter? sqrt sys selfPos selfVel deltaTime calls = some v ∧
      velocityAfter? sqrt sys selfPos selfVel deltaTime calls' = some v := by
  have hperm := (distinct_empty.run calls).entries_perm (distinct_empty.run calls') hfind
  rw [h.velocityAfter?_eq, h'.velocityAfter?_eq]
  exact ⟨_, rfl, congrArg some (exactScan_perm (inView_perm hperm)).symm⟩

/-- Without a vision radius no cell of the query has to fit. -/
theorem HistoryFits.unbounded (h : HistoryFits sys selfPos calls) :
    HistoryFits ⟨{ sys.params with visionRadiusM := 0 }⟩ selfPos calls :=
  ⟨h.run, fun hpos => absurd hpos (lt_irrefl (0 : ℚ))⟩

end FlockingSystem

open NeighbourTable FlockingSystem in
/-- **Flocking does not depend on storage.** In exact arithmetic, with any square root, for all
histories of a table whose cells fit: tables with the same contents give the same velocity, whatever
their cell sizes and their histories; so do tables that were built by the same updates of each peer,
mixed in any way, and by insertions of different peers in any order. With a vision radius the
velocity is that of a full scan of the entries within it; and if these are all entries, it is the
one without a vision radius. -/
theorem flocking_storage (sqrt : ℚ → ℚ) (sys : FlockingSystem ℚ) (selfPos : PositionComponent ℚ)
    (selfVel : VelocityComponent ℚ) (deltaTime : ℚ) :
    (∀ calls calls' : List (NeighbourTable.Call ℚ),
      HistoryFits sys selfPos calls → HistoryFits sys selfPos calls' →
      (∀ hid, ((empty : NeighbourTable ℚ).run calls).find hid
          = ((empty : NeighbourTable ℚ).run calls').find hid) ∨
        ((∀ c ∈ calls, c.Builds) ∧ (∀ c ∈ calls', c.Builds) ∧
          (SameUpdates calls calls' ∨
            ((insertions calls).map Entry.hid).Nodup ∧
              (insertions calls).Perm (insertions calls'))) →
      ∃ v, velocityAfter? sqrt sys selfPos selfVel deltaTime calls = some v ∧
        velocityAfter? sqrt sys selfPos selfVel deltaTime calls' = some v) ∧
    ∀ calls, 0 < sys.params.visionRadiusM → HistoryFits sys selfPos calls →
      velocityAfter? sqrt sys selfPos selfVel deltaTime calls =
        some (exactScan sqrt sys.params selfPos selfVel deltaTime
          (((empty : NeighbourTable ℚ).run calls).entries.filter fun e =>
            e.position.distSq selfPos ≤ sys.params.visionRadiusM * sys.params.visionRadiusM)) ∧
      ((∀ e ∈ ((empty : NeighbourTable ℚ).run calls).entries,
          e.position.distSq selfPos ≤ sys.params.visionRadiusM * sys.params.visionRadiusM) →
        velocityAfter? sqrt sys selfPos selfVel deltaTime calls =
          velocityAfter? sqrt ⟨{ sys.params with visionRadiusM := 0 }⟩ selfPos selfVel deltaTime
            calls) := by
  refine ⟨fun calls calls' hfits hfits' hsame => ?_, fun calls hpos hfits => ?_⟩
  · refine hfits.velocityAfter?_congr hfits' ?_
    -- insertions of different peers are the same updates of each
    rcases hsame with hfind | ⟨hcalls, hcalls', hupdates⟩
    · exact hfind
    · have hupdates : SameUpdates calls calls' :=
        hupdates.elim id fun ⟨hdistinct, hperm⟩ => sameUpdates_of_perm hperm hdistinct
      exact hupdates.find_run hcalls hcalls'
  · rw [hfits.velocityAfter?_eq, inView, if_pos hpos]
    refine ⟨rfl, fun hall => ?_⟩
    -- the filter keeps all of them
    rw [hfits.unbounded.velocityAfter?_eq, List.filter_eq_self.mpr fun e he =>
      decide_eq_true (hall e he)]
    rfl

/-- A beacon of peer `n`, `n` metres up the x axis. -/
def beaconOfPeer (n : ℕ) : StateVector ℚ :=
  { StateVector.empty with id := ⟨UInt16.ofNat n, UUID.nil⟩, position := ⟨n, 0, 0⟩ }

open NeighbourTable FlockingSystem

/-- Two peers in cells of 5 m, one in each. -/
theorem twoCells_fit : HistoryFits ⟨⟨5, 3 / 2, 1, 1, 5, 30⟩⟩ ⟨0, 0, 0⟩
    [.upsert (beaconOfPeer 3) 0 none, .upsert (beaconOfPeer 8) 0 none] := by
  have hsize : ((empty : NeighbourTable ℚ).run
      [.upsert (beaconOfPeer 3) 0 none, .upsert (beaconOfPeer 8) 0 none]).cellSizeM = 5 := rfl
  have hspan : ⌈(30 : ℚ) / 5⌉ = 6 := by norm_num
  refine ⟨⟨fun _ => ?_, fun _ => ?_, trivial⟩, fun _ _ => ?_⟩
  · show CellFits 5 ⟨(3 : ℕ), 0, 0⟩
    norm_num [CellFits, FitsInt32]
  · show CellFits 5 ⟨(8 : ℕ), 0, 0⟩
    norm_num [CellFits, FitsInt32]
  · show QueryFits _ _ 30
    constructor
    · rw [hsize]
      norm_num [CellFits, FitsInt32]
    · rw [hsize, hspan]
      decide
    · rw [hsize, hspan]
      decide
    · rw [hsize, hspan]
      refine blockFits_of_le (b := 0) ?_ ?_ ?_ ?_ <;> norm_num [cellOf]

/-- Without cells, and in the other order, the velocity is the same. -/
theorem two_orders_one_velocity : ∃ v,
    velocityAfter? id ⟨⟨5, 3 / 2, 1, 1, 5, 30⟩⟩ ⟨0, 0, 0⟩ ⟨0, 0, 0⟩ 1
        [.upsert (beaconOfPeer 3) 0 none, .upsert (beaconOfPeer 8) 0 none] = some v ∧
      velocityAfter? id ⟨⟨5, 3 / 2, 1, 1, 5, 30⟩⟩ ⟨0, 0, 0⟩ ⟨0, 0, 0⟩ 1
        [.setCellSizeM 0, .upsert (beaconOfPeer 8) 0 none, .upsert (beaconOfPeer 3) 0 none]
          = some v := by
  have hscan : HistoryFits ⟨⟨5, 3 / 2, 1, 1, 5, 30⟩⟩ ⟨0, 0, 0⟩
      [.setCellSizeM 0, .upsert (beaconOfPeer 8) 0 none, .upsert (beaconOfPeer 3) 0 none] := by
    have hoff : ∀ {P : Prop}, (0 : ℚ) < 0 → P := fun h => absurd h (lt_irrefl 0)
    exact ⟨⟨fun h => hoff h, fun h => hoff h, fun h => hoff h, trivial⟩, fun _ h => hoff h⟩
  refine (flocking_storage id _ _ _ _).1 _ _ twoCells_fit hscan (.inr ⟨?_, ?_, .inr ⟨?_, ?_⟩⟩)
  · simp [NeighbourTable.Call.Builds]
  · simp [NeighbourTable.Call.Builds]
  · simp [insertions, NeighbourTable.Call.inserted, Entry.ofBeacon, beaconOfPeer]
  · exact List.Perm.swap _ _ _

end MithAtomas
