import MithAtomas.Comms.CheckedTable

/-!
# The radius query

What `for_each_within` is for is a scan: every entry within the radius, and nothing else. Over exact
numbers the query through the grid visits the same entries (`Indexed.forEachWithin?_perm`), wherever
its own conversions and sums are defined (`QueryFits`), and the table may have been made by any
calls whose conversions were (`RunFits`): `for_each_within_exact`.
-/

namespace MithAtomas

open Definedness HashGrid

namespace NeighbourTable

variable {t : NeighbourTable ℚ}

/-! ### The calls -/

/-- The cells of all entries fit, if there are any cells. -/
def CellsFit (t : NeighbourTable ℚ) : Prop :=
  0 < t.cellSizeM → ∀ e ∈ t.entries, CellFits t.cellSizeM e.position

/-- The cells that a call has to compute, and that the table does not have yet, are triples of
`std::int32_t`. -/
def CallFits (t : NeighbourTable ℚ) : Call ℚ → Prop
  | .upsert sv _ _ => 0 < t.cellSizeM → CellFits t.cellSizeM sv.position
  | .setCellSizeM size => 0 < size → ∀ e ∈ t.entries, CellFits size e.position
  | .ageOut _ _ | .clear => True

/-- So do those of all calls, one after another. -/
def RunFits (t : NeighbourTable ℚ) : List (Call ℚ) → Prop
  | [] => True
  | c :: calls => t.CallFits c ∧ (t.apply c).RunFits calls

theorem cellsFit_empty : (empty : NeighbourTable ℚ).CellsFit :=
  fun _ _ he => absurd he List.not_mem_nil

/-- **A call is defined**, and leaves cells that fit. -/
theorem CellsFit.apply (h : t.CellsFit) {c : Call ℚ} (hc : t.CallFits c) :
    t.step? c = some (t.apply c) ∧ (t.apply c).CellsFit := by
  cases c with
  | upsert sv now rssi =>
    refine ⟨(computes_upsert? computes_cellKeyFor? t sv now rssi).eq_some ⟨hc, ?_⟩, ?_⟩
    · exact fun it hit hpos => h (not_le.mp hpos) it (List.mem_of_find?_eq_some hit)
    · intro hpos e he
      have hsize : (t.upsert sv now rssi).cellSizeM = t.cellSizeM := cellSizeM_upsert _ _ _ _
      rw [show t.apply (.upsert sv now rssi) = t.upsert sv now rssi from rfl, hsize] at hpos ⊢
      rcases mem_upsert he with hold | rfl
      · exact h hpos e hold
      · exact hc hpos
  | ageOut now timeout =>
    refine ⟨(computes_ageOut? computes_cellKeyFor? t now timeout).eq_some ?_, ?_⟩
    · exact fun _ hpos e he => h (not_le.mp hpos) e (List.mem_of_mem_filter he)
    · intro hpos e he
      have hsize : (t.ageOut now timeout).cellSizeM = t.cellSizeM := cellSizeM_ageOut _ _ _
      rw [show t.apply (.ageOut now timeout) = t.ageOut now timeout from rfl, hsize] at hpos ⊢
      exact h hpos e (mem_ageOut he)
  | clear => exact ⟨rfl, fun _ _ he => absurd he List.not_mem_nil⟩
  | setCellSizeM size =>
    -- a negative size is zero, and then there are no cells
    have hfits : ¬ (if size < 0 then 0 else size) ≤ 0 →
        ∀ e ∈ t.entries, CellFits (if size < 0 then 0 else size) e.position := by
      split
      · exact fun hpos => absurd le_rfl hpos
      · exact fun hpos => hc (not_le.mp hpos)
    refine ⟨(computes_rebuildGrid? computes_cellKeyFor? _).eq_some hfits, ?_⟩
    intro hpos e he
    have hsize : (t.setCellSizeM size).cellSizeM = if size < 0 then 0 else size :=
      cellSizeM_rebuildGrid _
    have hentries : (t.setCellSizeM size).entries = t.entries := entries_rebuildGrid _
    rw [show t.apply (.setCellSizeM size) = t.setCellSizeM size from rfl, hsize] at hpos ⊢
    rw [show t.apply (.setCellSizeM size) = t.setCellSizeM size from rfl, hentries] at he
    exact hfits (not_le.mpr hpos) e he

/-- **So is a run of calls.** -/
theorem CellsFit.run (h : t.CellsFit) {calls : List (Call ℚ)} (hcalls : t.RunFits calls) :
    t.run? calls = some (t.run calls) ∧ (t.run calls).CellsFit := by
  induction calls generalizing t with
  | nil => exact ⟨rfl, h⟩
  | cons c calls ih =>
    obtain ⟨hdefined, hcells⟩ := h.apply hcalls.1
    obtain ⟨hrest, hafter⟩ := ih hcells hcalls.2
    refine ⟨?_, hafter⟩
    unfold run? at hrest ⊢
    rw [List.foldlM_cons, hdefined]
    exact hrest

/-! ### The query -/

/-- What a query computes fits: the cell of the centre, the span and the counters of the loops that
run from its negative on, and every cell of the block. -/
structure QueryFits (t : NeighbourTable ℚ) (centre : PositionComponent ℚ) (radius : ℚ) : Prop where
  centreCell : CellFits t.cellSizeM centre
  span : FitsInt32 ⌈radius / t.cellSizeM⌉
  counter : CountsTo ⌈radius / t.cellSizeM⌉
  block : BlockFits (cellOf t.cellSizeM centre) ⌈radius / t.cellSizeM⌉

/-- **A query is defined** where what it computes fits. -/
theorem forEachWithin?_eq {centre : PositionComponent ℚ} {radius : ℚ}
    (hfits : 0 < t.cellSizeM → t.QueryFits centre radius) :
    t.forEachWithin? centre radius = some (t.forEachWithin centre radius) := by
  have hspan : Computes (CheckedScalar.ceilInt32? (radius / t.cellSizeM) >>= counter?)
      (offsets (int32 (Scalar.ceil (radius / t.cellSizeM))))
      (FitsInt32 ⌈radius / t.cellSizeM⌉ ∧ CountsTo (int32 ⌈radius / t.cellSizeM⌉)) :=
    Computes.bind (computes_checked _) fun _ => computes_counter? _
  refine (computes_forEachWithin? computes_cellKeyFor? t fun _ => hspan).eq_some fun hgrid => ?_
  have hpos : 0 < t.cellSizeM := not_le.mp (not_or.mp hgrid).1
  obtain ⟨hcentre, hceil, hcounter, hblock⟩ := hfits hpos
  rw [scalar_ceil_rat, int32_of_fits hceil, cellKeyFor_eq hpos hcentre]
  exact ⟨hcentre, ⟨hceil, hcounter⟩, hblock⟩

/-- **The grid and the scan agree.** -/
theorem Indexed.forEachWithin_perm (h : t.Indexed) {centre : PositionComponent ℚ} {radius : ℚ}
    (hr : 0 ≤ radius) (hfits : 0 < t.cellSizeM → t.QueryFits centre radius) :
    (t.forEachWithin centre radius).Perm
      (t.entries.filter fun e => e.position.distSq centre ≤ radius * radius) := by
  unfold forEachWithin
  simp only
  split
  · exact List.Perm.refl _
  · next hgrid =>
    obtain ⟨hsize, -⟩ := not_or.mp hgrid
    have hpos : 0 < t.cellSizeM := not_le.mp hsize
    have hfits := hfits hpos
    unfold Indexed at h
    rw [if_pos hpos] at h
    rw [scalar_ceil_rat, int32_of_fits hfits.span]
    have hkeys := nodup_cellBlock (t.cellFor centre) hfits.span.2
    rw [← filterMap_range_eq_filter]
    have hlen : t.cells.length = t.entries.length := List.length_map _
    rw [← hlen]
    refine h.filterMap_visit_perm hkeys fun i hi => ?_
    -- an entry within the radius lies in a cell of the block
    obtain ⟨e, he⟩ := Option.ne_none_iff_exists'.mp hi
    obtain ⟨hget, hwithin⟩ := Option.filter_eq_some_iff.mp he
    refine ⟨t.cellFor e.position, ?_, ?_⟩
    · exact cellKeyFor_mem_cellBlock hpos hr (of_decide_eq_true hwithin)
    · unfold cells
      rw [List.getElem?_map, hget]
      rfl

/-- **The radius query over any history.** After any calls from an empty table, a query visits each
entry within the radius once and nothing else; each index is filed once, under its entry's present
cell, no bucket is empty or holds an index that is not in the table, and with the index off the grid
is empty. All of it is computed without an overflow where the cells of the positions fit, and the
loops of the query. -/
theorem for_each_within_exact (calls : List (Call ℚ)) (centre : PositionComponent ℚ) (radius : ℚ)
    (hr : 0 ≤ radius) (hcalls : (empty : NeighbourTable ℚ).RunFits calls)
    (hfits : 0 < ((empty : NeighbourTable ℚ).run calls).cellSizeM →
      ((empty : NeighbourTable ℚ).run calls).QueryFits centre radius) :
    ∃ t visited, (empty : NeighbourTable ℚ).run? calls = some t ∧
      t.forEachWithin? centre radius = some visited ∧
      visited.Perm (t.entries.filter fun e => e.position.distSq centre ≤ radius * radius) ∧
      (0 < t.cellSizeM → ∀ e ∈ t.entries, CellFits t.cellSizeM e.position) ∧
      (0 < t.cellSizeM → ∀ k i, (bucket t.grid k).count i
        = if (t.entries.map fun e => cellOf t.cellSizeM e.position)[i]? = some k then 1 else 0) ∧
      NoEmptyBucket t.grid ∧ (¬ 0 < t.cellSizeM → t.grid = ∅) := by
  have h : ((empty : NeighbourTable ℚ).run calls).Indexed := indexed_empty.run calls
  obtain ⟨hrun, hcells⟩ := cellsFit_empty.run hcalls
  -- of the history only the invariants are needed
  generalize (empty : NeighbourTable ℚ).run calls = t at h hfits hrun hcells
  refine ⟨t, t.forEachWithin centre radius, hrun, forEachWithin?_eq hfits,
    h.forEachWithin_perm hr hfits, hcells, fun hpos k i => ?_, ?_, fun hoff => ?_⟩
  · have hkeys : (t.entries.map fun e => cellOf t.cellSizeM e.position) = t.cells :=
      List.map_congr_left fun e he => (cellKeyFor_eq hpos (hcells hpos e he)).symm
    unfold Indexed at h
    rw [if_pos hpos] at h
    rw [hkeys]
    split
    · next hk => exact List.count_eq_one_of_mem (h.nodup k) ((h.mem_bucket k i).mpr hk)
    · next hk => exact List.count_eq_zero.mpr fun hmem => hk ((h.mem_bucket k i).mp hmem)
  · unfold Indexed at h
    split at h
    · exact h.noEmptyBucket
    · rw [h]
      exact noEmptyBucket_empty
  · unfold Indexed at h
    rwa [if_neg hoff] at h

/-- A beacon of peer `n`, from a place in the plane. -/
def beaconFrom (n : UInt16) (x y : ℚ) : StateVector ℚ :=
  { StateVector.empty with id := ⟨n, UUID.nil⟩, position := ⟨x, y, 0⟩ }

/-- Three peers are heard, and then the first of them from another cell. -/
def migration : List (Call ℚ) :=
  [.upsert (beaconFrom 1 1 0) 0 none, .upsert (beaconFrom 2 (-4) 7) 0 none,
    .upsert (beaconFrom 3 100 0) 0 none, .upsert (beaconFrom 1 6 0) 1 none]

/-- A query of 10 m around the origin visits the first two. -/
theorem migration_for_each_within : ∃ t visited,
    (empty : NeighbourTable ℚ).run? migration = some t ∧
      t.forEachWithin? ⟨0, 0, 0⟩ 10 = some visited ∧
      visited.Perm [Entry.ofBeacon (beaconFrom 1 6 0) 1 none,
        Entry.ofBeacon (beaconFrom 2 (-4) 7) 0 none] := by
  have hcalls : (empty : NeighbourTable ℚ).RunFits migration := by
    refine ⟨fun _ => ?_, fun _ => ?_, fun _ => ?_, fun _ => ?_, trivial⟩
    · show CellFits 5 ⟨1, 0, 0⟩
      norm_num [CellFits, FitsInt32]
    · show CellFits 5 ⟨-4, 7, 0⟩
      norm_num [CellFits, FitsInt32]
    · show CellFits 5 ⟨100, 0, 0⟩
      norm_num [CellFits, FitsInt32]
    · show CellFits 5 ⟨6, 0, 0⟩
      norm_num [CellFits, FitsInt32]
  have hsize : ((empty : NeighbourTable ℚ).run migration).cellSizeM = 5 := rfl
  have hfits : ((empty : NeighbourTable ℚ).run migration).QueryFits ⟨0, 0, 0⟩ 10 := by
    have hspan : ⌈(10 : ℚ) / 5⌉ = 2 := by norm_num
    constructor
    · rw [hsize]
      norm_num [CellFits, FitsInt32]
    · rw [hsize, hspan]
      decide
    · rw [hsize, hspan]
      decide
    · rw [hsize, hspan]
      refine blockFits_of_le (b := 0) ?_ ?_ ?_ ?_ <;> norm_num [cellOf]
  obtain ⟨t, visited, ht, hvisited, hperm, -⟩ :=
    for_each_within_exact migration ⟨0, 0, 0⟩ 10 (by norm_num) hcalls fun _ => hfits
  refine ⟨t, visited, ht, hvisited, ?_⟩
  -- the third peer is too far away
  obtain rfl := Option.some.inj (ht.symm.trans (cellsFit_empty.run hcalls).1)
  have hentries : ((empty : NeighbourTable ℚ).run migration).entries
      = [Entry.ofBeacon (beaconFrom 1 6 0) 1 none, Entry.ofBeacon (beaconFrom 2 (-4) 7) 0 none,
        Entry.ofBeacon (beaconFrom 3 100 0) 0 none] := rfl
  rw [hentries] at hperm
  norm_num [Entry.ofBeacon, beaconFrom, PositionComponent.distSq] at hperm ⊢
  exact hperm

end NeighbourTable

end MithAtomas
