import MithAtomas.Framework.HashGrid
import MithAtomas.Comms.CellKey
import MithAtomas.Comms.StateVector

/-!
# The neighbour table

`src/comms/neighbour_table.cpp`: what this robot last heard of each peer, with a hash grid over the
positions. The four mutators are `upsert`, `ageOut`, `clear` and `setCellSizeM`; `forEachWithin` is
the radius query, which looks into the grid, or scans all entries when the index is off
(`cellSizeM = 0`) or the grid is empty.

The grid is kept in step with the entries (`NeighbourTable.Indexed`): every index is in exactly one
bucket, the one of its entry's present cell. Each mutator keeps this (`Indexed.upsert`,
`Indexed.ageOut`, `indexed_clear`, `indexed_rebuildGrid`), so it holds after any sequence of calls
(`Indexed.run`).

The conversions to `int` and the sums of `int`s are those of the code where they are defined;
`Comms/CheckedTable.lean` has the functions that say where that is.
-/

namespace MithAtomas

open HashGrid

variable {F : Type}

/-- `NeighbourTable::Entry`; `rssi` is `none` for `UNKNOWN_RSSI`. -/
structure Entry (F : Type) where
  hid : HierarchicalID
  position : PositionComponent F
  velocity : VelocityComponent F
  health : HealthComponent
  role : RoleComponent
  state : BehaviourStateComponent
  lastSeenS : F
  rssi : Option F
  syncTimeS : F
  deriving DecidableEq, Repr

/-- The assignments both branches of `upsert` make. -/
def Entry.observe (e : Entry F) (sv : StateVector F) (currentTimeS : F) (rssi : Option F) :
    Entry F :=
  { e with
    position := sv.position
    velocity := sv.velocity
    health := sv.health
    role := sv.role
    state := sv.state
    lastSeenS := currentTimeS
    rssi := rssi
    syncTimeS := sv.syncTimeS }

/-- The entry of a peer heard for the first time. -/
def Entry.ofBeacon (sv : StateVector F) (currentTimeS : F) (rssi : Option F) : Entry F where
  hid := sv.id
  position := sv.position
  velocity := sv.velocity
  health := sv.health
  role := sv.role
  state := sv.state
  lastSeenS := currentTimeS
  rssi := rssi
  syncTimeS := sv.syncTimeS

/-- The assignments to the entry of a known peer leave nothing of what was there. -/
theorem Entry.observe_eq_ofBeacon {it : Entry F} {sv : StateVector F} (h : it.hid = sv.id) (now : F)
    (rssi : Option F) : it.observe sv now rssi = Entry.ofBeacon sv now rssi := by
  unfold Entry.observe Entry.ofBeacon
  rw [h]

structure NeighbourTable (F : Type) where
  entries : List (Entry F)
  totalObservations : UInt64
  totalEvictions : UInt64
  cellSizeM : F
  grid : Grid CellKey

namespace NeighbourTable

variable [Scalar F] (t : NeighbourTable F)

/-- `NeighbourTable{}`; the cell size defaults to 5 m. -/
def empty : NeighbourTable F where
  entries := []
  totalObservations := 0
  totalEvictions := 0
  cellSizeM := ((5 : ℕ) : F)
  grid := ∅

def cellFor (p : PositionComponent F) : CellKey :=
  cellKeyFor t.cellSizeM p

/-- The cells of the entries, by index. -/
def cells : List CellKey :=
  t.entries.map fun e => t.cellFor e.position

/-- `rebuild_grid_`. -/
def rebuildGrid : NeighbourTable F :=
  if t.cellSizeM ≤ 0 then { t with grid := ∅ } else { t with grid := build t.cells }

/-- `find_`, as an index. -/
def findIdx (hid : HierarchicalID) : Option ℕ :=
  t.entries.findIdx? fun e => e.hid = hid

/-- `find`. -/
def find (hid : HierarchicalID) : Option (Entry F) :=
  t.entries.find? fun e => e.hid = hid

def upsert (sv : StateVector F) (currentTimeS : F) (rssi : Option F) : NeighbourTable F :=
  match t.findIdx sv.id with
  | none =>
    let e := Entry.ofBeacon sv currentTimeS rssi
    { t with
      entries := t.entries ++ [e]
      grid := if 0 < t.cellSizeM then file t.grid (t.cellFor e.position) t.entries.length
        else t.grid
      totalObservations := t.totalObservations + 1 }
  | some idx =>
    match t.entries[idx]? with
    | none => t
    | some it =>
      -- filed anew only in another cell
      let prevCell := t.cellFor it.position
      let newCell := t.cellFor sv.position
      { t with
        entries := t.entries.set idx (it.observe sv currentTimeS rssi)
        grid :=
          if 0 < t.cellSizeM then
            if newCell ≠ prevCell then file (unfile t.grid prevCell idx) newCell idx else t.grid
          else t.grid
        totalObservations := t.totalObservations + 1 }

def ageOut (currentTimeS timeoutS : F) : NeighbourTable F :=
  let threshold := currentTimeS - timeoutS
  let kept := t.entries.filter fun e => ¬ e.lastSeenS < threshold
  let removed := t.entries.length - kept.length
  let t' := { t with
    entries := kept
    totalEvictions := t.totalEvictions + removed.toUInt64 }
  if 0 < removed then t'.rebuildGrid else t'

def clear : NeighbourTable F :=
  { t with entries := [], grid := ∅ }

def setCellSizeM (sizeM : F) : NeighbourTable F :=
  rebuildGrid { t with cellSizeM := if sizeM < 0 then 0 else sizeM }

/-- The entries `for_each_within` passes to its visitor, in order. -/
def forEachWithin (centre : PositionComponent F) (radiusM : F) : List (Entry F) :=
  let rSq := radiusM * radiusM
  -- without cells, or with nothing filed, all entries are scanned
  if t.cellSizeM ≤ 0 ∨ t.grid.entries = [] then
    t.entries.filter fun e => e.position.distSq centre ≤ rSq
  else
    let span := int32 (Scalar.ceil (radiusM / t.cellSizeM))
    (visit t.grid (cellBlock (t.cellFor centre) span)).filterMap fun idx =>
      t.entries[idx]?.filter fun e => e.position.distSq centre ≤ rSq

/-- A call of one of the mutators. -/
inductive Call (F : Type) where
  | upsert (sv : StateVector F) (currentTimeS : F) (rssi : Option F)
  | ageOut (currentTimeS timeoutS : F)
  | clear
  | setCellSizeM (sizeM : F)

def apply : Call F → NeighbourTable F
  | .upsert sv now rssi => t.upsert sv now rssi
  | .ageOut now timeout => t.ageOut now timeout
  | .clear => t.clear
  | .setCellSizeM size => t.setCellSizeM size

/-- A sequence of calls. -/
def run (calls : List (Call F)) : NeighbourTable F :=
  calls.foldl apply t

/-! ### The entries -/

section Entries

variable {t : NeighbourTable F}

omit [Scalar F] in
theorem findIdx_spec {hid : HierarchicalID} {idx : ℕ} (h : t.findIdx hid = some idx) :
    ∃ it, t.entries[idx]? = some it ∧ it.hid = hid := by
  obtain ⟨hlt, hp, -⟩ := List.findIdx?_eq_some_iff_getElem.mp h
  exact ⟨t.entries[idx], List.getElem?_eq_getElem hlt, of_decide_eq_true hp⟩

/-- **An upsert makes one entry**; all others were there. -/
theorem mem_upsert {sv : StateVector F} {now : F} {rssi : Option F} {e : Entry F}
    (h : e ∈ (t.upsert sv now rssi).entries) :
    e ∈ t.entries ∨ e = Entry.ofBeacon sv now rssi := by
  unfold upsert at h
  split at h
  · rcases List.mem_append.mp h with hold | hnew
    · exact .inl hold
    · exact .inr (List.mem_singleton.mp hnew)
  · next idx hidx =>
    obtain ⟨it, hit, hhid⟩ := findIdx_spec hidx
    rw [hit] at h
    rcases List.mem_or_eq_of_mem_set h with hold | hnew
    · exact .inl hold
    · rw [Entry.observe_eq_ofBeacon hhid] at hnew
      exact .inr hnew

theorem entries_rebuildGrid (t : NeighbourTable F) : t.rebuildGrid.entries = t.entries := by
  unfold rebuildGrid
  split <;> rfl

theorem entries_ageOut (t : NeighbourTable F) (now timeout : F) :
    (t.ageOut now timeout).entries
      = t.entries.filter fun e => ¬ e.lastSeenS < now - timeout := by
  unfold ageOut rebuildGrid
  simp only
  split <;> (try split) <;> rfl

/-- Ageing out makes no entry. -/
theorem mem_ageOut {now timeout : F} {e : Entry F} (h : e ∈ (t.ageOut now timeout).entries) :
    e ∈ t.entries := by
  rw [entries_ageOut] at h
  exact List.mem_of_mem_filter h

/-- No peer has two entries. -/
def Distinct (t : NeighbourTable F) : Prop :=
  (t.entries.map Entry.hid).Nodup

theorem distinct_empty : (empty : NeighbourTable F).Distinct :=
  List.nodup_nil

theorem Distinct.upsert (h : t.Distinct) (sv : StateVector F) (now : F) (rssi : Option F) :
    (t.upsert sv now rssi).Distinct := by
  unfold Distinct NeighbourTable.upsert
  split
  · next hnone =>
    -- the new id is not among those that are there
    have hnew : sv.id ∉ t.entries.map Entry.hid := by
      rintro hmem
      obtain ⟨e, he, hsame⟩ := List.mem_map.mp hmem
      have hno := List.findIdx?_eq_none_iff.mp hnone e he
      exact of_decide_eq_false hno hsame
    rw [List.map_append]
    exact List.Nodup.append h (List.nodup_singleton _) (List.disjoint_singleton.mpr hnew)
  · next idx hidx =>
    obtain ⟨it, hit, hhid⟩ := findIdx_spec hidx
    rw [hit]
    -- the id of the entry stays
    obtain ⟨hlt, hget⟩ := List.getElem?_eq_some_iff.mp hit
    have hsame : (t.entries.map Entry.hid).set idx it.hid = t.entries.map Entry.hid := by
      rw [← hget, ← List.map_set, List.set_getElem_self]
    simp only [List.map_set]
    show ((t.entries.map Entry.hid).set idx it.hid).Nodup
    rw [hsame]
    exact h

theorem Distinct.ageOut (h : t.Distinct) (now timeout : F) : (t.ageOut now timeout).Distinct := by
  unfold Distinct
  rw [entries_ageOut]
  exact h.sublist (List.filter_sublist.map Entry.hid)

omit [Scalar F] in
/-- With one entry for each peer, `find` finds it. -/
theorem Distinct.find_iff (h : t.Distinct) {hid : HierarchicalID} {e : Entry F} :
    t.find hid = some e ↔ e ∈ t.entries ∧ e.hid = hid := by
  unfold find
  constructor
  · intro hfind
    have hsame := List.find?_some hfind
    exact ⟨List.mem_of_find?_eq_some hfind, by simpa using hsame⟩
  · rintro ⟨hmem, rfl⟩
    cases hfind : t.entries.find? fun e' => e'.hid = e.hid with
    | none =>
      have hno := List.find?_eq_none.mp hfind e hmem
      simp at hno
    | some e' =>
      have hmem' := List.mem_of_find?_eq_some hfind
      have hsame : e'.hid = e.hid := by simpa using List.find?_some hfind
      rw [List.inj_on_of_nodup_map h hmem' hmem hsame]

/-! ### The cell size -/

theorem cellSizeM_rebuildGrid (t : NeighbourTable F) :
    t.rebuildGrid.cellSizeM = t.cellSizeM := by
  unfold rebuildGrid
  split <;> rfl

theorem cellSizeM_upsert (t : NeighbourTable F) (sv : StateVector F) (now : F) (rssi : Option F) :
    (t.upsert sv now rssi).cellSizeM = t.cellSizeM := by
  unfold upsert
  split
  · rfl
  · split <;> rfl

theorem cellSizeM_ageOut (t : NeighbourTable F) (now timeout : F) :
    (t.ageOut now timeout).cellSizeM = t.cellSizeM := by
  unfold ageOut
  simp only
  split
  · exact cellSizeM_rebuildGrid _
  · rfl

end Entries

/-! ### The grid and the entries -/

variable {t : NeighbourTable ℚ}

/-- The grid files each index under its entry's present cell; with the index off it is empty. -/
def Indexed (t : NeighbourTable ℚ) : Prop :=
  if 0 < t.cellSizeM then Indexes t.grid t.cells else t.grid = ∅

theorem indexed_empty : (empty : NeighbourTable ℚ).Indexed := by
  unfold Indexed
  split
  · exact Indexes.nil
  · rfl

theorem indexed_clear (t : NeighbourTable ℚ) : t.clear.Indexed := by
  unfold Indexed
  split
  · exact Indexes.nil
  · rfl

theorem indexed_rebuildGrid (t : NeighbourTable ℚ) : t.rebuildGrid.Indexed := by
  unfold rebuildGrid
  split
  · next hle =>
    unfold Indexed
    rw [if_neg (not_lt.mpr hle)]
  · next hgt =>
    unfold Indexed
    rw [if_pos (not_le.mp hgt)]
    exact indexes_build _

/-- **An upsert files a new entry, and moves an old one to its new cell.** -/
theorem Indexed.upsert (h : t.Indexed) (sv : StateVector ℚ) (now : ℚ) (rssi : Option ℚ) :
    (t.upsert sv now rssi).Indexed := by
  unfold NeighbourTable.upsert
  split
  · -- a peer heard for the first time
    unfold Indexed at h ⊢
    simp only
    split
    · next hpos =>
      rw [if_pos hpos] at h
      have hcells := h.append (t.cellFor sv.position)
      unfold cells at hcells
      rw [List.length_map] at hcells
      unfold cells
      rw [List.map_append]
      exact hcells
    · next hoff =>
      rw [if_neg hoff] at h
      exact h
  · next idx hidx =>
    obtain ⟨it, hit, -⟩ := findIdx_spec hidx
    rw [hit]
    unfold Indexed at h ⊢
    simp only
    split
    · next hpos =>
      rw [if_pos hpos] at h
      have hcell : t.cells[idx]? = some (t.cellFor it.position) := by
        unfold cells
        rw [List.getElem?_map, hit]
        rfl
      unfold cells
      rw [List.map_set]
      by_cases hmove : t.cellFor sv.position = t.cellFor it.position
      · rw [if_neg (not_not.mpr hmove)]
        have hstay := h.stay hcell
        rw [← hmove] at hstay
        exact hstay
      · rw [if_pos hmove]
        exact h.move hcell hmove
    · next hoff =>
      rw [if_neg hoff] at h
      exact h

/-- Ageing out renumbers the entries, and then the grid is rebuilt. -/
theorem Indexed.ageOut (h : t.Indexed) (now timeout : ℚ) : (t.ageOut now timeout).Indexed := by
  unfold NeighbourTable.ageOut
  simp only
  split
  · exact indexed_rebuildGrid _
  · next hnone =>
    -- nothing was removed
    have hall : t.entries.filter (fun e => ¬ e.lastSeenS < now - timeout) = t.entries := by
      refine (List.filter_sublist).eq_of_length_le ?_
      omega
    rw [hall]
    exact h

theorem Indexed.setCellSizeM (t : NeighbourTable ℚ) (size : ℚ) :
    (t.setCellSizeM size).Indexed :=
  indexed_rebuildGrid _

theorem Indexed.apply (h : t.Indexed) (c : Call ℚ) : (t.apply c).Indexed := by
  cases c with
  | upsert sv now rssi => exact h.upsert sv now rssi
  | ageOut now timeout => exact h.ageOut now timeout
  | clear => exact indexed_clear t
  | setCellSizeM size => exact Indexed.setCellSizeM t size

theorem Indexed.run (h : t.Indexed) (calls : List (Call ℚ)) : (t.run calls).Indexed := by
  induction calls generalizing t with
  | nil => exact h
  | cons c calls ih => exact ih (h.apply c)

end NeighbourTable

end MithAtomas
