import MithAtomas.Comms.CheckedTable
import MithAtomas.Comms.UdpWire
import MithAtomas.Core.Binary32

/-!
# The arithmetic of cells, in `float`

The checked functions of `NeighbourTable` over `float`.

`CallDefined` says where that is, for a call of a mutator or a query: a coordinate is multiplied by
the rounded reciprocal of the cell size, and the exact product must be in `InFloorRange`. Nothing
that is received has to be (`far_beacon_undefined`).
-/

namespace MithAtomas

open BinaryFloat Binary32 Definedness HashGrid

/-! ### Where they are defined -/

/-- The coordinate has a cell: the exact product with the reciprocal is in range. -/
def AxisDefined (cellSize x : Binary32) : Prop :=
  ∃ a ∈ x.value?, ∃ i ∈ inverse? cellSize, InFloorRange (a * i)

structure CellDefined (cellSize : Binary32) (p : PositionComponent Binary32) : Prop where
  x : AxisDefined cellSize p.x
  y : AxisDefined cellSize p.y
  z : AxisDefined cellSize p.z

/-- The coordinate of the cell. -/
def axisCell (cellSize x : Binary32) : ℤ :=
  int32 (Scalar.floor (x * (1 / cellSize)))

theorem computes_floorInt32? {cellSize : Binary32} (hpos : ¬ cellSize ≤ 0) (x : Binary32) :
    Computes (floorInt32? (x * (1 / cellSize))) (axisCell cellSize x) (AxisDefined cellSize x) := by
  refine ⟨fun z => ?_⟩
  have hiff := floorInt32?_mul (x := x) (y := 1 / cellSize) (z := z)
  rw [value?_one_div hpos] at hiff
  constructor
  · intro h
    obtain ⟨a, ha, i, hi, -, hrange⟩ := hiff.mp h
    exact ⟨(int32_floor h).symm, a, ha, i, hi, hrange⟩
  · rintro ⟨rfl, a, ha, i, hi, hrange⟩
    have hsome : floorInt32? (x * (1 / cellSize)) = some ⌊nearest (a * i)⌋ := by
      refine floorInt32?_mul.mpr ?_
      rw [value?_one_div hpos]
      exact ⟨a, ha, i, hi, rfl, hrange⟩
    rw [hsome, ← int32_floor hsome]
    rfl

/-- **A cell is defined** where each of its coordinates is. -/
theorem Binary32.computes_cellKeyFor? (cellSize : Binary32) (p : PositionComponent Binary32) :
    Computes (cellKeyFor? cellSize p) (cellKeyFor cellSize p)
      (¬ cellSize ≤ 0 → CellDefined cellSize p) := by
  unfold cellKeyFor? cellKeyFor
  by_cases hle : cellSize ≤ 0
  · simp only [hle, if_true, not_true_eq_false, false_imp_iff]
    exact computes_some _
  · simp only [hle, if_false, not_false_eq_true, true_imp_iff]
    refine Computes.congr
      (Computes.bind (computes_floorInt32? hle p.x) fun _ =>
        Computes.bind (computes_floorInt32? hle p.y) fun _ =>
          Computes.bind (computes_floorInt32? hle p.z) fun _ => computes_some _)
      (fun _ => rfl) ⟨fun ⟨hx, hy, hz, _⟩ => ⟨hx, hy, hz⟩, fun h => ⟨h.x, h.y, h.z, trivial⟩⟩

/-- The number of cells that a radius spans. -/
def radiusSpan (cellSize radiusM : Binary32) : ℤ :=
  int32 (Scalar.ceil (radiusM / cellSize))

/-- The radius has a span: the exact quotient is in range. -/
def RadiusDefined (cellSize radiusM : Binary32) : Prop :=
  ∃ q ∈ quotient? radiusM cellSize, |q| < 2 ^ 31 - 64

/-- No sum leaves the range, around the cell of the coordinate. -/
def BlockDefined (cellSize radiusM x : Binary32) : Prop :=
  ∀ a ∈ x.value?, ∀ i ∈ inverse? cellSize, ∀ q ∈ quotient? radiusM cellSize, 0 ≤ ⌈nearest q⌉ →
    -2 ^ 31 ≤ ⌊nearest (a * i)⌋ - ⌈nearest q⌉ ∧ ⌊nearest (a * i)⌋ + ⌈nearest q⌉ < 2 ^ 31

structure QueryDefined (cellSize : Binary32) (centre : PositionComponent Binary32)
    (radiusM : Binary32) : Prop where
  cell : CellDefined cellSize centre
  radius : RadiusDefined cellSize radiusM
  blockX : BlockDefined cellSize radiusM centre.x
  blockY : BlockDefined cellSize radiusM centre.y
  blockZ : BlockDefined cellSize radiusM centre.z

theorem computes_ceilInt32? (x : Binary32) :
    Computes (ceilInt32? x) (int32 (Scalar.ceil x)) (∃ z, ceilInt32? x = some z) where
  eq_some_iff z := by
    constructor
    · intro h
      exact ⟨(int32_ceil h).symm, z, h⟩
    · rintro ⟨rfl, z, h⟩
      rw [int32_ceil h, h]

/-- **The loops' counters** are defined where the quotient is in range. -/
theorem computes_span {cellSize : Binary32} (hpos : ¬ cellSize ≤ 0) (radiusM : Binary32) :
    Computes (ceilInt32? (radiusM / cellSize) >>= counter?)
      (offsets (radiusSpan cellSize radiusM)) (RadiusDefined cellSize radiusM) := by
  have hdiv := fun z => ceilInt32?_div (x := radiusM) (z := z) (value?_ne_zero hpos)
  refine Computes.congr (Computes.bind (computes_ceilInt32? _) fun _ => computes_counter? _)
    (fun _ => rfl) ?_
  constructor
  · rintro ⟨⟨z, hz⟩, hcounts⟩
    rw [int32_ceil hz] at hcounts
    obtain ⟨q, hq, -, hlt⟩ := (hdiv z).mp ⟨hz, hcounts⟩
    exact ⟨q, hq, hlt⟩
  · rintro ⟨q, hq, hlt⟩
    obtain ⟨hz, hcounts⟩ := (hdiv _).mpr ⟨q, hq, rfl, hlt⟩
    rw [← int32_ceil hz] at hcounts
    exact ⟨⟨_, hz⟩, hcounts⟩

/-- The cell of a coordinate that has one. -/
theorem axisCell_eq {cellSize x : Binary32} (hpos : ¬ cellSize ≤ 0) {a i : ℚ}
    (ha : x.value? = some a) (hi : inverse? cellSize = some i) (hrange : InFloorRange (a * i)) :
    axisCell cellSize x = ⌊nearest (a * i)⌋ ∧ FitsInt32 ⌊nearest (a * i)⌋ := by
  have hsome : floorInt32? (x * (1 / cellSize)) = some ⌊nearest (a * i)⌋ := by
    refine floorInt32?_mul.mpr ?_
    rw [value?_one_div hpos]
    exact ⟨a, ha, i, hi, rfl, hrange⟩
  obtain ⟨q, -, hq, hfits⟩ := floorInt32?_eq_some_iff.mp hsome
  rw [hq]
  exact ⟨(int32_floor hsome).trans hq, hfits⟩

theorem radiusSpan_eq {cellSize radiusM : Binary32} (hpos : ¬ cellSize ≤ 0) {q : ℚ}
    (hq : quotient? radiusM cellSize = some q) (hlt : |q| < 2 ^ 31 - 64) :
    radiusSpan cellSize radiusM = ⌈nearest q⌉ :=
  int32_ceil ((ceilInt32?_div (value?_ne_zero hpos)).mpr ⟨q, hq, rfl, hlt⟩).1

/-- The sums along one axis. -/
theorem forall_fits_iff {cellSize radiusM x : Binary32} (hpos : ¬ cellSize ≤ 0)
    (hx : AxisDefined cellSize x) (hradius : RadiusDefined cellSize radiusM) :
    (∀ d ∈ offsets (radiusSpan cellSize radiusM), FitsInt32 (axisCell cellSize x + d)) ↔
      BlockDefined cellSize radiusM x := by
  obtain ⟨a, ha, i, hi, hrange⟩ := hx
  obtain ⟨q, hq, hlt⟩ := hradius
  rw [(axisCell_eq hpos ha hi hrange).1, radiusSpan_eq hpos hq hlt, forall_fits_offsets_iff]
  constructor
  · intro houter a' ha' i' hi' q' hq'
    obtain rfl := Option.mem_unique ha ha'
    obtain rfl := Option.mem_unique hi hi'
    obtain rfl := Option.mem_unique hq hq'
    exact houter
  · exact fun hblock => hblock a ha i hi q hq

/-! ### The table -/

namespace NeighbourTable

variable (t : NeighbourTable Binary32)

/-- **A query** is defined where its cell, its radius and the sums are. -/
theorem QueryDefined.computes (centre : PositionComponent Binary32) (radiusM : Binary32) :
    Computes (t.forEachWithin? centre radiusM) (t.forEachWithin centre radiusM)
      (¬ (t.cellSizeM ≤ 0 ∨ t.grid.entries = []) → QueryDefined t.cellSizeM centre radiusM) := by
  refine (computes_forEachWithin? Binary32.computes_cellKeyFor? t
    fun hpos => computes_span hpos radiusM).congr (fun _ => rfl) (forall_congr' fun hgrid => ?_)
  have hpos : ¬ t.cellSizeM ≤ 0 := fun h => hgrid (.inl h)
  have hkey : cellKeyFor t.cellSizeM centre = (axisCell t.cellSizeM centre.x,
      axisCell t.cellSizeM centre.y, axisCell t.cellSizeM centre.z) := if_neg hpos
  rw [hkey]
  -- the sums for the block fit, axis by axis
  constructor
  · rintro ⟨hcell, hradius, hsums⟩
    exact {
      cell := hcell
      radius := hradius
      blockX := (forall_fits_iff hpos hcell.x hradius).mp fun d hd => (hsums d hd).1
      blockY := (forall_fits_iff hpos hcell.y hradius).mp fun d hd => (hsums d hd).2.1
      blockZ := (forall_fits_iff hpos hcell.z hradius).mp fun d hd => (hsums d hd).2.2 }
  · rintro ⟨hcell, hradius, hx, hy, hz⟩
    refine ⟨hcell, hradius, fun d hd => ⟨?_, ?_, ?_⟩⟩
    · exact (forall_fits_iff hpos hcell.x hradius).mpr hx d hd
    · exact (forall_fits_iff hpos hcell.y hradius).mpr hy d hd
    · exact (forall_fits_iff hpos hcell.z hradius).mpr hz d hd

/-- All entries have a cell, if there are any cells. -/
def CellsDefined (cellSize : Binary32) (entries : List (Entry Binary32)) : Prop :=
  ¬ cellSize ≤ 0 → ∀ e ∈ entries, CellDefined cellSize e.position

/-- What an upsert needs: a cell for the new position, and one for the old. -/
structure UpsertDefined (sv : StateVector Binary32) : Prop where
  newCell : 0 < t.cellSizeM → CellDefined t.cellSizeM sv.position
  prevCell : ∀ it ∈ t.find sv.id, ¬ t.cellSizeM ≤ 0 → CellDefined t.cellSizeM it.position

theorem UpsertDefined.computes (sv : StateVector Binary32) (now : Binary32)
    (rssi : Option Binary32) :
    Computes (t.upsert? sv now rssi) (t.upsert sv now rssi) (t.UpsertDefined sv) :=
  (computes_upsert? Binary32.computes_cellKeyFor? t sv now rssi).congr (fun _ => rfl)
    ⟨fun h => ⟨h.1, h.2⟩, fun h => ⟨h.newCell, h.prevCell⟩⟩

end NeighbourTable

/-! ### Runs of calls -/

/-- A call of a mutator, or a query. -/
inductive TableCall where
  | mutate (c : NeighbourTable.Call Binary32)
  | forEachWithin (centre : PositionComponent Binary32) (radiusM : Binary32)

namespace TableCall

def exec? (t : NeighbourTable Binary32) : TableCall → Option (NeighbourTable Binary32)
  | .mutate (.upsert sv now rssi) => t.upsert? sv now rssi
  | .mutate (.ageOut now timeout) => t.ageOut? now timeout
  | .mutate .clear => some t.clear
  | .mutate (.setCellSizeM size) => t.setCellSizeM? size
  | .forEachWithin centre radiusM => (t.forEachWithin? centre radiusM).map fun _ => t

def apply (t : NeighbourTable Binary32) : TableCall → NeighbourTable Binary32
  | .mutate c => t.apply c
  | .forEachWithin _ _ => t

end TableCall

open NeighbourTable

/-- **What a call needs.** -/
def CallDefined (t : NeighbourTable Binary32) : TableCall → Prop
  | .mutate (.upsert sv _ _) => t.UpsertDefined sv
  | .mutate (.ageOut now timeout) => t.AgesOut now timeout →
      CellsDefined t.cellSizeM (t.entries.filter fun e => ¬ e.lastSeenS < now - timeout)
  | .mutate .clear => True
  | .mutate (.setCellSizeM size) => CellsDefined (if size < 0 then 0 else size) t.entries
  | .forEachWithin centre radiusM =>
      ¬ (t.cellSizeM ≤ 0 ∨ t.grid.entries = []) → QueryDefined t.cellSizeM centre radiusM

theorem computes_exec? (t : NeighbourTable Binary32) (c : TableCall) :
    Computes (c.exec? t) (c.apply t) (CallDefined t c) := by
  cases c with
  | forEachWithin centre radiusM => exact (QueryDefined.computes t centre radiusM).map _
  | mutate c =>
    cases c with
    | upsert sv now rssi => exact UpsertDefined.computes t sv now rssi
    | ageOut now timeout => exact computes_ageOut? Binary32.computes_cellKeyFor? t now timeout
    | clear => exact computes_some _
    | setCellSizeM size => exact computes_rebuildGrid? Binary32.computes_cellKeyFor? _

/-- **The arithmetic of cells.** A run of calls is defined if and only if each call, in the table
that it finds, has what it needs; and so is what a query visits. -/
theorem cell_arithmetic_iff (t : NeighbourTable Binary32) :
    (∀ calls t', calls.foldlM TableCall.exec? t = some t' ↔
      t' = calls.foldl TableCall.apply t ∧
        ∀ pre c, pre ++ [c] <+: calls → CallDefined (pre.foldl TableCall.apply t) c) ∧
    ∀ centre radiusM visited, t.forEachWithin? centre radiusM = some visited ↔
      visited = t.forEachWithin centre radiusM ∧ CallDefined t (.forEachWithin centre radiusM) :=
  ⟨fun calls => (computes_foldlM computes_exec? calls t).eq_some_iff,
    fun centre radiusM => (QueryDefined.computes t centre radiusM).eq_some_iff⟩

/-! ### A beacon from far away -/

/-- What `decode_beacon` has read, as numbers. -/
def StateVector.floats (sv : StateVector UInt32) : StateVector Binary32 where
  id := sv.id
  position := ⟨Binary32.ofBits sv.position.x, Binary32.ofBits sv.position.y,
    Binary32.ofBits sv.position.z⟩
  velocity := ⟨Binary32.ofBits sv.velocity.vx, Binary32.ofBits sv.velocity.vy,
    Binary32.ofBits sv.velocity.vz⟩
  health := sv.health
  role := sv.role
  state := sv.state
  tick := sv.tick
  syncTimeS := Binary32.ofBits sv.syncTimeS
  senderPubkey := sv.senderPubkey
  signature := sv.signature

/-- 2^40 metres away. -/
def farBeacon : StateVector UInt32 :=
  { StateVector.empty with position := ⟨0x53800000, 0, 0⟩ }

theorem value?_farBeacon : (StateVector.floats farBeacon).position.x.value? = some (2 ^ 40) ∧
    (StateVector.floats farBeacon).position.y.value? = some 0 ∧
    (StateVector.floats farBeacon).position.z.value? = some 0 := by
  refine ⟨?_, ?_, ?_⟩
  · show some (((2 ^ 23 + 0 : ℕ) : ℚ) * 2 ^ ((167 : ℕ) - 150 : ℤ)) = some (2 ^ 40)
    norm_num
  · show some (((0 : ℕ) : ℚ) * 2 ^ (-149 : ℤ)) = some 0
    norm_num
  · show some (((0 : ℕ) : ℚ) * 2 ^ (-149 : ℤ)) = some 0
    norm_num

/-- The default cell size is rounded to somewhere between 4 and 8 metres. -/
theorem cellSizeM_empty : ∃ m : Magnitude binary32, 2 ^ (2 : ℤ) ≤ m.val ∧ m.val ≤ 2 ^ (3 : ℤ) ∧
    (NeighbourTable.empty : NeighbourTable Binary32).cellSizeM = .finite false m := by
  have hlow := Format.zpow_le_roundMag (f := binary32) (q := |((5 : ℕ) : ℚ)|) (k := 2) (by decide)
    (by norm_num)
  have hhigh := Format.roundMag_le_zpow (f := binary32) (q := |((5 : ℕ) : ℚ)|) (k := 3)
    (abs_nonneg _) (by decide) (by norm_num)
  have hlt : binary32.roundMag |((5 : ℕ) : ℚ)| < 2 ^ binary32.maxExp :=
    hhigh.trans_lt (zpow_lt_zpow_right₀ one_lt_two (by decide))
  refine ⟨⟨_, Format.representable_roundMag (abs_nonneg _) hlt⟩, hlow, hhigh, ?_⟩
  show Binary.round (decide (((5 : ℕ) : ℚ) < 0)) |((5 : ℕ) : ℚ)| (abs_nonneg _) = _
  unfold Binary.round
  rw [dif_pos hlt, decide_eq_false (by norm_num)]

/-- The datagram is accepted and all its numbers are finite; but the table, which has the default
cell size, cannot file it. -/
theorem far_beacon_undefined :
    UdpWire.decodeBeacon (UdpWire.encodeBeacon farBeacon UdpWire.MAX_FRAME_BYTES) = some farBeacon ∧
      (StateVector.floats farBeacon).position.x.value? = some (2 ^ 40) ∧
      (StateVector.floats farBeacon).position.y.value? = some 0 ∧
      (StateVector.floats farBeacon).position.z.value? = some 0 ∧
      0 < (NeighbourTable.empty : NeighbourTable Binary32).cellSizeM ∧
      (NeighbourTable.empty : NeighbourTable Binary32).upsert? (StateVector.floats farBeacon) 0 none
        = none := by
  obtain ⟨hx, hy, hz⟩ := value?_farBeacon
  obtain ⟨m, hlow, hhigh, hsize⟩ := cellSizeM_empty
  have hm : 0 < m.val := (zpow_pos two_pos _).trans_le hlow
  have hpos : 0 < (NeighbourTable.empty : NeighbourTable Binary32).cellSizeM := by
    rw [hsize]
    exact ⟨_, rfl, _, rfl, WithBot.coe_lt_coe.mpr (WithTop.coe_lt_coe.mpr hm)⟩
  refine ⟨UdpWire.decodeBeacon_encodeBeacon _ (by decide), hx, hy, hz, hpos, ?_⟩
  refine (UpsertDefined.computes _ _ _ _).eq_none fun hdefined => ?_
  obtain ⟨a, ha, i, hi, -, hlt⟩ := (hdefined.newCell hpos).x
  obtain rfl := Option.mem_unique ha hx
  -- the reciprocal is at least an eighth
  have hinverse : i = binary32.roundMag (1 / m.val) := by
    rw [hsize] at hi
    change (if 2 ^ (-128 : ℤ) < m.val then some (binary32.roundMag (1 / m.val)) else none)
      = some i at hi
    split at hi
    · exact (Option.some.inj hi).symm
    · cases hi
  have heighth : 2 ^ (-3 : ℤ) ≤ i := by
    rw [hinverse]
    refine Format.zpow_le_roundMag (by decide) ?_
    rw [zpow_neg, ← one_div]
    exact one_div_le_one_div_of_le hm hhigh
  have hproduct : (2 : ℚ) ^ 40 * 2 ^ (-3 : ℤ) ≤ 2 ^ 40 * i :=
    mul_le_mul_of_nonneg_left heighth (by norm_num)
  norm_num at hproduct hlt
  linarith

end MithAtomas
