import MithAtomas.Comms.NeighbourTable

/-!
# The neighbour table, with its arithmetic checked

The functions of `NeighbourTable` once more, with every conversion to an `int` and every sum of
`int`s checked: a function with a `?` has no result where the code converts a number that does not
fit, or adds past the range. Where it has one, it is that of the function without.

What a call needs depends on the scalars only through the positions that have a cell (`Cell`), so
that it is said here for all of them: for the exact numbers of `Comms/RadiusQuery.lean` and for the
`float`s of `Comms/CellArithmetic.lean`.
-/

namespace MithAtomas

open Definedness HashGrid

variable {F : Type} [CheckedScalar F]

/-! ### The checked functions -/

/-- A grid that is changed at the cell of a position if `cell_size_m_ > 0.0f`. -/
def withCell? (cellSize : F) (p : PositionComponent F) (grid : Grid CellKey)
    (change : CellKey → Grid CellKey) : Option (Grid CellKey) :=
  if 0 < cellSize then (cellKeyFor? cellSize p).map change else some grid

namespace NeighbourTable

variable (t : NeighbourTable F)

/-- `rebuild_grid_`. -/
def rebuildGrid? : Option (NeighbourTable F) :=
  if t.cellSizeM ≤ 0 then some { t with grid := ∅ }
  else do
    let cells ← t.entries.mapM fun e => cellKeyFor? t.cellSizeM e.position
    some { t with grid := build cells }

def upsert? (sv : StateVector F) (currentTimeS : F) (rssi : Option F) : Option (NeighbourTable F) :=
  match t.findIdx sv.id with
  | none => do
    let e := Entry.ofBeacon sv currentTimeS rssi
    let grid ← withCell? t.cellSizeM e.position t.grid fun cell =>
      file t.grid cell t.entries.length
    some { t with
      entries := t.entries ++ [e]
      grid := grid
      totalObservations := t.totalObservations + 1 }
  | some idx =>
    match t.entries[idx]? with
    | none => some t
    | some it => do
      let prevCell ← cellKeyFor? t.cellSizeM it.position
      let grid ← withCell? t.cellSizeM sv.position t.grid fun newCell =>
        if newCell ≠ prevCell then file (unfile t.grid prevCell idx) newCell idx else t.grid
      some { t with
        entries := t.entries.set idx (it.observe sv currentTimeS rssi)
        grid := grid
        totalObservations := t.totalObservations + 1 }

def ageOut? (currentTimeS timeoutS : F) : Option (NeighbourTable F) :=
  let threshold := currentTimeS - timeoutS
  let kept := t.entries.filter fun e => ¬ e.lastSeenS < threshold
  let removed := t.entries.length - kept.length
  let t' := { t with
    entries := kept
    totalEvictions := t.totalEvictions + removed.toUInt64 }
  if 0 < removed then t'.rebuildGrid? else some t'

def setCellSizeM? (sizeM : F) : Option (NeighbourTable F) :=
  rebuildGrid? { t with cellSizeM := if sizeM < 0 then 0 else sizeM }

/-- The entries `for_each_within` passes to its visitor, in order. -/
def forEachWithin? (centre : PositionComponent F) (radiusM : F) : Option (List (Entry F)) :=
  let rSq := radiusM * radiusM
  if t.cellSizeM ≤ 0 ∨ t.grid.entries = [] then
    some (t.entries.filter fun e => e.position.distSq centre ≤ rSq)
  else do
    let centreCell ← cellKeyFor? t.cellSizeM centre
    let ds ← CheckedScalar.ceilInt32? (radiusM / t.cellSizeM) >>= counter?
    let block ← cellBlock? centreCell ds
    some ((visit t.grid block).filterMap fun idx =>
      t.entries[idx]?.filter fun e => e.position.distSq centre ≤ rSq)

def step? : Call F → Option (NeighbourTable F)
  | .upsert sv now rssi => t.upsert? sv now rssi
  | .ageOut now timeout => t.ageOut? now timeout
  | .clear => some t.clear
  | .setCellSizeM size => t.setCellSizeM? size

/-- A sequence of calls. -/
def run? (calls : List (Call F)) : Option (NeighbourTable F) :=
  calls.foldlM step? t

end NeighbourTable

/-! ### Where they are defined -/

section

variable {Cell : F → PositionComponent F → Prop}
  (hcell : ∀ cellSize p, Computes (cellKeyFor? cellSize p) (cellKeyFor cellSize p)
    (¬ cellSize ≤ 0 → Cell cellSize p))

include hcell in
theorem computes_withCell? (cellSize : F) (p : PositionComponent F) (grid : Grid CellKey)
    (change : CellKey → Grid CellKey) :
    Computes (withCell? cellSize p grid change)
      (if 0 < cellSize then change (cellKeyFor cellSize p) else grid)
      (0 < cellSize → Cell cellSize p) := by
  unfold withCell?
  split
  · next hpos =>
    refine ((hcell cellSize p).map change).congr (fun _ => rfl) ?_
    exact ⟨fun h _ => h (CheckedScalar.not_le_of_pos _ hpos), fun h _ => h hpos⟩
  · next hoff =>
    exact (computes_some _).congr (fun _ => rfl) (iff_of_true trivial fun h => absurd h hoff)

namespace NeighbourTable

variable (t : NeighbourTable F)

include hcell in
theorem computes_rebuildGrid? :
    Computes t.rebuildGrid? t.rebuildGrid
      (¬ t.cellSizeM ≤ 0 → ∀ e ∈ t.entries, Cell t.cellSizeM e.position) := by
  unfold rebuildGrid? rebuildGrid
  split
  · next hle =>
    exact (computes_some _).congr (fun _ => rfl) (iff_of_true trivial fun h => absurd hle h)
  · next hpos =>
    refine Computes.congr (Computes.bind (computes_mapM _ fun e _ => hcell _ _)
      fun _ => computes_some _) (fun _ => rfl) ?_
    rw [and_true]
    exact ⟨fun h _ e he => h e he hpos, fun h e he _ => h hpos e he⟩

omit [CheckedScalar F] in
theorem findIdx_eq_none_iff_find {hid : HierarchicalID} :
    t.findIdx hid = none ↔ t.find hid = none := by
  unfold findIdx find
  rw [List.findIdx?_eq_none_iff, List.find?_eq_none]
  simp

omit [CheckedScalar F] in
theorem find_of_findIdx {hid : HierarchicalID} {idx : ℕ} (h : t.findIdx hid = some idx) :
    t.entries[idx]? = t.find hid := by
  obtain ⟨hlt, hp, hbefore⟩ := List.findIdx?_eq_some_iff_getElem.mp h
  have hfind : t.find hid = some t.entries[idx] := by
    refine List.find?_eq_some_iff_getElem.mpr ⟨hp, idx, hlt, rfl, fun j hj => ?_⟩
    rw [Bool.not_eq_true']
    exact Bool.eq_false_iff.mpr (hbefore j hj)
  rw [hfind, List.getElem?_eq_getElem hlt]

include hcell in
/-- **An upsert** needs a cell for the new position, and one for the old. -/
theorem computes_upsert? (sv : StateVector F) (now : F) (rssi : Option F) :
    Computes (t.upsert? sv now rssi) (t.upsert sv now rssi)
      ((0 < t.cellSizeM → Cell t.cellSizeM sv.position) ∧
        ∀ it ∈ t.find sv.id, ¬ t.cellSizeM ≤ 0 → Cell t.cellSizeM it.position) := by
  unfold upsert? upsert
  cases hidx : t.findIdx sv.id with
  | none =>
    have hfind := t.findIdx_eq_none_iff_find.mp hidx
    refine Computes.congr (Computes.bind (computes_withCell? hcell _ _ _ _) fun _ =>
      computes_some _)
      (fun _ => rfl) ?_
    rw [and_true]
    exact ⟨fun h => ⟨h, fun it hit => absurd (hfind.symm.trans hit) (by simp)⟩, fun h => h.1⟩
  | some idx =>
    obtain ⟨it, hit, -⟩ := findIdx_spec hidx
    have hfind : t.find sv.id = some it := (t.find_of_findIdx hidx).symm.trans hit
    simp only [hit]
    refine Computes.congr (Computes.bind (hcell _ _) fun _ =>
      Computes.bind (computes_withCell? hcell _ _ _ _) fun _ => computes_some _) (fun _ => rfl) ?_
    rw [and_true]
    constructor
    · rintro ⟨hprev, hnew⟩
      refine ⟨hnew, fun it' hit' => ?_⟩
      obtain rfl := Option.mem_unique hfind hit'
      exact hprev
    · rintro ⟨hnew, hprev⟩
      exact ⟨hprev it hfind, hnew⟩

/-- The entries that age out. -/
def AgesOut (now timeout : F) : Prop :=
  ∃ e ∈ t.entries, e.lastSeenS < now - timeout

include hcell in
/-- **Ageing out** needs the cells of what is left, if anything goes. -/
theorem computes_ageOut? (now timeout : F) :
    Computes (t.ageOut? now timeout) (t.ageOut now timeout)
      (t.AgesOut now timeout → ¬ t.cellSizeM ≤ 0 →
        ∀ e ∈ t.entries.filter fun e => ¬ e.lastSeenS < now - timeout,
          Cell t.cellSizeM e.position) := by
  have hiff : 0 < t.entries.length
      - (t.entries.filter fun e => ¬ e.lastSeenS < now - timeout).length ↔
        t.AgesOut now timeout := by
    rw [Nat.sub_pos_iff_lt, List.length_filter_lt_length_iff_exists]
    simp [AgesOut]
  unfold ageOut? ageOut
  simp only
  split
  · next hremoved =>
    have hages := hiff.mp hremoved
    exact (computes_rebuildGrid? hcell _).congr (fun _ => rfl) ⟨fun h _ => h, fun h => h hages⟩
  · next hnone =>
    have hstay : ¬ t.AgesOut now timeout := fun hages => hnone (hiff.mpr hages)
    exact (computes_some _).congr (fun _ => rfl) (iff_of_true trivial fun h => absurd h hstay)

include hcell in
/-- **A query** needs the cell of its centre, a radius that the loops can count to, and sums that
fit. -/
theorem computes_forEachWithin? {centre : PositionComponent F} {radiusM : F} {Radius : Prop}
    (hspan : ¬ t.cellSizeM ≤ 0 →
      Computes (CheckedScalar.ceilInt32? (radiusM / t.cellSizeM) >>= counter?)
        (offsets (int32 (Scalar.ceil (radiusM / t.cellSizeM)))) Radius) :
    Computes (t.forEachWithin? centre radiusM) (t.forEachWithin centre radiusM)
      (¬ (t.cellSizeM ≤ 0 ∨ t.grid.entries = []) → Cell t.cellSizeM centre ∧ Radius ∧
        BlockFits (cellKeyFor t.cellSizeM centre)
          (int32 (Scalar.ceil (radiusM / t.cellSizeM)))) := by
  unfold forEachWithin? forEachWithin
  simp only
  split
  · next hscan =>
    -- without a grid no cell is computed
    exact (computes_some _).congr (fun _ => rfl) (iff_of_true trivial fun h => absurd hscan h)
  · next hgrid =>
    have hpos : ¬ t.cellSizeM ≤ 0 := fun h => hgrid (.inl h)
    refine Computes.congr (Computes.bind (hcell _ _) fun _ => Computes.bind (hspan hpos) fun _ =>
      Computes.bind (computes_cellBlock? _ _) fun _ => computes_some _) (fun _ => rfl) ?_
    rw [and_true]
    exact ⟨fun ⟨hc, hrest⟩ _ => ⟨hc hpos, hrest⟩, fun h => ⟨fun _ => (h hgrid).1, (h hgrid).2⟩⟩

end NeighbourTable

end

end MithAtomas
