import MithAtomas.Core.Components
import MithAtomas.Core.CheckedScalar

/-!
# Cells

`NeighbourTable` and `SimBus` key their hash grids the same way: the cell of a position is the floor
of each coordinate divided by the cell size, as three 32-bit integers (`cellKeyFor?`), and a query
looks into the block of cells within `span` of the centre's along each axis (`cellBlock?`, the three
nested loops over `dz`, `dy`, `dx`, whose counters take the values `counter?`).

The functions without a `?` are total. They are those of the code where nothing overflows
(`computes_cellKeyFor?`, `computes_counter?`, `computes_cellBlock?`), and say nothing about it
elsewhere.

`nodup_cellBlock`: the block has no cell twice. `cellKeyFor_mem_cellBlock` is the covering argument
over `ℚ`: along one axis the cells of two points that are at most `r` apart differ by at most
`⌈r / cellSize⌉` (`floor_sub_floor_le`).
-/

namespace MithAtomas

open Definedness

/-- `std::array<std::int32_t, 3>`. -/
abbrev CellKey := ℤ × ℤ × ℤ

section

variable {F : Type} [Scalar F]

/-- `cell_for_`, where the conversions are defined. -/
def cellKeyFor (cellSize : F) (p : PositionComponent F) : CellKey :=
  if cellSize ≤ 0 then (0, 0, 0)
  else
    let inv := 1 / cellSize
    (int32 (Scalar.floor (p.x * inv)), int32 (Scalar.floor (p.y * inv)),
      int32 (Scalar.floor (p.z * inv)))

end

/-- `cell_for_`. -/
def cellKeyFor? {F : Type} [CheckedScalar F] (cellSize : F) (p : PositionComponent F) :
    Option CellKey :=
  if cellSize ≤ 0 then some (0, 0, 0)
  else do
    let inv := 1 / cellSize
    let x ← CheckedScalar.floorInt32? (p.x * inv)
    let y ← CheckedScalar.floorInt32? (p.y * inv)
    let z ← CheckedScalar.floorInt32? (p.z * inv)
    some (x, y, z)

/-- The values of `d` in `for (int d = -span; d <= span; ++d)`, where `d` does not overflow. -/
def offsets (span : ℤ) : List ℤ :=
  (List.range (2 * span + 1).toNat).map fun k : ℕ => -span + (k : ℤ)

/-- The cells of the three nested loops around `centre`, where the sums do not overflow. -/
def cellBlock (centre : CellKey) (span : ℤ) : List CellKey :=
  (offsets span).flatMap fun dz => (offsets span).flatMap fun dy => (offsets span).map fun dx =>
    (int32 (centre.1 + dx), int32 (centre.2.1 + dy), int32 (centre.2.2 + dz))

/-- `for (int d = -span; d <= span; ++d)`, with the last `++d`. -/
def counter? (span : ℤ) : Option (List ℤ) := do
  let first ← checked (-span)
  if first ≤ span then (checked (span + 1)).map fun _ => offsets span
  else some []

/-- The cell that the three nested loops look up. -/
def offsetCell? (centre : CellKey) (dz dy dx : ℤ) : Option CellKey := do
  let x ← checked (centre.1 + dx)
  let y ← checked (centre.2.1 + dy)
  let z ← checked (centre.2.2 + dz)
  some (x, y, z)

/-- The cells of the loops, whose counters take the values `ds`. -/
def cellBlock? (centre : CellKey) (ds : List ℤ) : Option (List CellKey) := do
  let planes ← ds.mapM fun dz => do
    let rows ← ds.mapM fun dy => ds.mapM fun dx => offsetCell? centre dz dy dx
    some rows.flatten
  some planes.flatten

/-! ### The block of a query -/

theorem mem_offsets {span d : ℤ} : d ∈ offsets span ↔ -span ≤ d ∧ d ≤ span := by
  unfold offsets
  rw [List.mem_map]
  constructor
  · rintro ⟨k, hk, rfl⟩
    rw [List.mem_range] at hk
    omega
  · rintro ⟨hlo, hhi⟩
    refine ⟨(d + span).toNat, ?_, ?_⟩
    · rw [List.mem_range]
      omega
    · omega

theorem nodup_offsets (span : ℤ) : (offsets span).Nodup := by
  refine List.nodup_range.map ?_
  intro k k' h
  simpa using h

/-- Two offsets of one loop stay apart when added to the centre and wrapped. -/
theorem int32_offset_inj {span c d d' : ℤ} (hspan : span < 2 ^ 31) (hd : d ∈ offsets span)
    (hd' : d' ∈ offsets span) (h : int32 (c + d) = int32 (c + d')) : d = d' := by
  rw [mem_offsets] at hd hd'
  refine int32_add_inj h ?_
  rw [abs_lt]
  omega

/-- **No cell is visited twice.** -/
theorem nodup_cellBlock (centre : CellKey) {span : ℤ} (hspan : span < 2 ^ 31) :
    (cellBlock centre span).Nodup := by
  -- row by row, and plane by plane: offsets less than `2 ^ 32` apart do not wrap together
  have hrow : ∀ dz dy, ((offsets span).map fun dx => ((int32 (centre.1 + dx),
      int32 (centre.2.1 + dy), int32 (centre.2.2 + dz)) : CellKey)).Nodup := by
    intro dz dy
    refine List.Nodup.map_on ?_ (nodup_offsets span)
    intro dx hdx dx' hdx' h
    exact int32_offset_inj hspan hdx hdx' (congrArg Prod.fst h)
  have hplane : ∀ dz, ((offsets span).flatMap fun dy => (offsets span).map fun dx =>
      ((int32 (centre.1 + dx), int32 (centre.2.1 + dy), int32 (centre.2.2 + dz)) :
        CellKey)).Nodup := by
    intro dz
    refine List.nodup_flatMap.mpr ⟨fun dy _ => hrow dz dy, ?_⟩
    refine (nodup_offsets span).imp_of_mem ?_
    intro dy dy' hdy hdy' hne
    rw [Function.onFun, List.disjoint_left]
    intro k hk hk'
    obtain ⟨dx, -, rfl⟩ := List.mem_map.mp hk
    obtain ⟨dx', -, h⟩ := List.mem_map.mp hk'
    exact hne (int32_offset_inj hspan hdy hdy' (congrArg (fun k => k.2.1) h).symm)
  refine List.nodup_flatMap.mpr ⟨fun dz _ => hplane dz, ?_⟩
  refine (nodup_offsets span).imp_of_mem ?_
  intro dz dz' hdz hdz' hne
  rw [Function.onFun, List.disjoint_left]
  intro k hk hk'
  obtain ⟨dy, -, hk⟩ := List.mem_flatMap.mp hk
  obtain ⟨dy', -, hk'⟩ := List.mem_flatMap.mp hk'
  obtain ⟨dx, -, rfl⟩ := List.mem_map.mp hk
  obtain ⟨dx', -, h⟩ := List.mem_map.mp hk'
  exact hne (int32_offset_inj hspan hdz hdz' (congrArg (fun k => k.2.2) h).symm)

/-- A cell within `span` of the centre along each axis is in the block, also where either of them
has wrapped. -/
theorem mem_cellBlock {c k : CellKey} {span : ℤ} (hx : |k.1 - c.1| ≤ span)
    (hy : |k.2.1 - c.2.1| ≤ span) (hz : |k.2.2 - c.2.2| ≤ span) :
    (int32 k.1, int32 k.2.1, int32 k.2.2)
      ∈ cellBlock (int32 c.1, int32 c.2.1, int32 c.2.2) span := by
  have hwrap : ∀ z d : ℤ, int32 (int32 z + (d - z)) = int32 d := by
    intro z d
    unfold int32
    rw [Int.bmod_add_bmod, add_sub_cancel]
  refine List.mem_flatMap.mpr ⟨k.2.2 - c.2.2, mem_offsets.mpr (abs_le.mp hz), ?_⟩
  refine List.mem_flatMap.mpr ⟨k.2.1 - c.2.1, mem_offsets.mpr (abs_le.mp hy), ?_⟩
  refine List.mem_map.mpr ⟨k.1 - c.1, mem_offsets.mpr (abs_le.mp hx), ?_⟩
  rw [hwrap, hwrap, hwrap]

/-! ### Where the loops are defined -/

theorem computes_counter? (span : ℤ) :
    Computes (counter? span) (offsets span) (CountsTo span) := by
  unfold counter?
  refine Computes.congr (Computes.bind (computes_checked (-span)) fun hneg =>
    computes_ite (fun _ => (computes_checked (span + 1)).map fun _ => offsets span)
      fun _ => computes_some []) ?_ ?_
  · rintro ⟨hneg, -⟩
    rw [int32_of_fits hneg]
    split
    · rfl
    · next hlt =>
      have hzero : (2 * span + 1).toNat = 0 := by omega
      rw [offsets, hzero]
      rfl
  · unfold CountsTo
    refine and_congr_right fun hneg => ?_
    rw [int32_of_fits hneg]
    split
    · next hle => exact ⟨fun h _ => h, fun h => h (by omega)⟩
    · next hlt => exact ⟨fun _ h => absurd h (by omega), fun _ => trivial⟩

/-- The sums along one axis fit if the outermost do. -/
theorem forall_fits_offsets_iff {c span : ℤ} : (∀ d ∈ offsets span, FitsInt32 (c + d)) ↔
    (0 ≤ span → -2 ^ 31 ≤ c - span ∧ c + span < 2 ^ 31) := by
  constructor
  · intro hall hspan
    exact ⟨(hall (-span) (mem_offsets.mpr ⟨le_rfl, by omega⟩)).1,
      (hall span (mem_offsets.mpr ⟨by omega, le_rfl⟩)).2⟩
  · intro houter d hd
    obtain ⟨hlo, hhi⟩ := mem_offsets.mp hd
    obtain ⟨hlow, hhigh⟩ := houter (by omega)
    exact ⟨by omega, by omega⟩

/-- No sum of the loops leaves the range. -/
def BlockFits (centre : CellKey) (span : ℤ) : Prop :=
  ∀ d ∈ offsets span, FitsInt32 (centre.1 + d) ∧ FitsInt32 (centre.2.1 + d) ∧
    FitsInt32 (centre.2.2 + d)

/-- A block around a cell that is not far out. -/
theorem blockFits_of_le {centre : CellKey} {span b : ℤ} (hb : b + span < 2 ^ 31)
    (hx : |centre.1| ≤ b) (hy : |centre.2.1| ≤ b) (hz : |centre.2.2| ≤ b) :
    BlockFits centre span := by
  have haxis : ∀ c : ℤ, |c| ≤ b → ∀ d ∈ offsets span, FitsInt32 (c + d) := by
    intro c hc
    rw [abs_le] at hc
    exact forall_fits_offsets_iff.mpr fun _ => ⟨by omega, by omega⟩
  exact fun d hd => ⟨haxis _ hx d hd, haxis _ hy d hd, haxis _ hz d hd⟩

/-- **A block** is defined where all its sums are. -/
theorem computes_cellBlock? (centre : CellKey) (span : ℤ) :
    Computes (cellBlock? centre (offsets span)) (cellBlock centre span)
      (BlockFits centre span) := by
  have hcell : ∀ dz dy dx, Computes (offsetCell? centre dz dy dx)
      (int32 (centre.1 + dx), int32 (centre.2.1 + dy), int32 (centre.2.2 + dz))
      (FitsInt32 (centre.1 + dx) ∧ FitsInt32 (centre.2.1 + dy) ∧ FitsInt32 (centre.2.2 + dz)) :=
    fun dz dy dx => Computes.congr (Computes.bind (computes_checked _) fun _ =>
      Computes.bind (computes_checked _) fun _ =>
        Computes.bind (computes_checked _) fun _ => computes_some _)
      (fun _ => rfl) (by rw [and_true])
  refine Computes.congr (Computes.bind (computes_mapM _ fun dz _ =>
    Computes.bind (computes_mapM _ fun dy _ => computes_mapM _ fun dx _ => hcell dz dy dx)
      fun _ => computes_some _) fun _ => computes_some _) (fun _ => rfl) ?_
  unfold BlockFits
  simp only [and_true]
  constructor
  · intro hall d hd
    exact hall d hd d hd d hd
  · intro hall dz hdz dy hdy dx hdx
    exact ⟨(hall dx hdx).1, (hall dy hdy).2.1, (hall dz hdz).2.2⟩

/-! ### The cells of nearby points -/

/-- The coordinates of the cell are values of `std::int32_t`. -/
def CellFits (cellSize : ℚ) (p : PositionComponent ℚ) : Prop :=
  FitsInt32 ⌊p.x * (1 / cellSize)⌋ ∧ FitsInt32 ⌊p.y * (1 / cellSize)⌋ ∧
    FitsInt32 ⌊p.z * (1 / cellSize)⌋

instance (cellSize : ℚ) (p : PositionComponent ℚ) : Decidable (CellFits cellSize p) :=
  inferInstanceAs (Decidable (_ ∧ _))

/-- The cell, as exact integers. -/
def cellOf (cellSize : ℚ) (p : PositionComponent ℚ) : CellKey :=
  (⌊p.x * (1 / cellSize)⌋, ⌊p.y * (1 / cellSize)⌋, ⌊p.z * (1 / cellSize)⌋)

theorem cellKeyFor_eq {cellSize : ℚ} (hpos : 0 < cellSize) {p : PositionComponent ℚ}
    (hfits : CellFits cellSize p) : cellKeyFor cellSize p = cellOf cellSize p := by
  obtain ⟨hx, hy, hz⟩ := hfits
  have hx' := int32_of_fits hx
  have hy' := int32_of_fits hy
  have hz' := int32_of_fits hz
  unfold cellKeyFor
  rw [if_neg (not_le.mpr hpos)]
  simp only [scalar_floor_rat]
  exact Prod.ext hx' (Prod.ext hy' hz')

/-- **A cell** is defined where its coordinates fit. -/
theorem computes_cellKeyFor? (cellSize : ℚ) (p : PositionComponent ℚ) :
    Computes (cellKeyFor? cellSize p) (cellKeyFor cellSize p)
      (¬ cellSize ≤ 0 → CellFits cellSize p) := by
  unfold cellKeyFor? cellKeyFor
  by_cases hle : cellSize ≤ 0
  · simp only [hle, if_true, not_true_eq_false, false_imp_iff]
    exact computes_some _
  · simp only [hle, if_false, not_false_eq_true, true_imp_iff]
    refine Computes.congr (Computes.bind (computes_checked _) fun _ =>
      Computes.bind (computes_checked _) fun _ =>
        Computes.bind (computes_checked _) fun _ => computes_some _) (fun _ => rfl) ?_
    unfold CellFits
    rw [and_true]

/-- Along one axis: points at most `r` apart lie in cells at most `⌈r / cellSize⌉` apart. -/
theorem floor_sub_floor_le {cellSize r a b : ℚ} (hpos : 0 < cellSize) (h : |a - b| ≤ r) :
    |⌊a * (1 / cellSize)⌋ - ⌊b * (1 / cellSize)⌋| ≤ ⌈r / cellSize⌉ := by
  have hscale : |a * (1 / cellSize) - b * (1 / cellSize)| ≤ ⌈r / cellSize⌉ := by
    calc |a * (1 / cellSize) - b * (1 / cellSize)|
        = |a - b| / cellSize := by
          rw [← sub_mul, abs_mul, abs_of_pos (one_div_pos.mpr hpos), mul_one_div]
      _ ≤ r / cellSize := by gcongr
      _ ≤ ⌈r / cellSize⌉ := Int.le_ceil _
  obtain ⟨hlo, hhi⟩ := abs_le.mp hscale
  have h₁ : ⌊a * (1 / cellSize)⌋ ≤ ⌊b * (1 / cellSize)⌋ + ⌈r / cellSize⌉ := by
    rw [← Int.floor_add_intCast]
    exact Int.floor_le_floor (by linarith)
  have h₂ : ⌊b * (1 / cellSize)⌋ ≤ ⌊a * (1 / cellSize)⌋ + ⌈r / cellSize⌉ := by
    rw [← Int.floor_add_intCast]
    exact Int.floor_le_floor (by linarith)
  rw [abs_le]
  omega

theorem PositionComponent.distSq_comm (a b : PositionComponent ℚ) : a.distSq b = b.distSq a := by
  unfold distSq
  ring

/-- A point within `r` is within `r` along each axis. -/
theorem abs_sub_le_of_distSq {a b : PositionComponent ℚ} {r : ℚ} (hr : 0 ≤ r)
    (h : a.distSq b ≤ r * r) : |a.x - b.x| ≤ r ∧ |a.y - b.y| ≤ r ∧ |a.z - b.z| ≤ r := by
  have hsum : (a.x - b.x) * (a.x - b.x) + (a.y - b.y) * (a.y - b.y)
      + (a.z - b.z) * (a.z - b.z) ≤ r * r := h
  have hx := mul_self_nonneg (a.x - b.x)
  have hy := mul_self_nonneg (a.y - b.y)
  have hz := mul_self_nonneg (a.z - b.z)
  refine ⟨?_, ?_, ?_⟩
  · exact abs_le_of_sq_le_sq (by linarith) hr
  · exact abs_le_of_sq_le_sq (by linarith) hr
  · exact abs_le_of_sq_le_sq (by linarith) hr

/-- **Covering.** The cell of every point within `r` of the centre is in the block the query
looks into. -/
theorem cellKeyFor_mem_cellBlock {cellSize r : ℚ} (hpos : 0 < cellSize) (hr : 0 ≤ r)
    {p centre : PositionComponent ℚ} (h : p.distSq centre ≤ r * r) :
    cellKeyFor cellSize p ∈ cellBlock (cellKeyFor cellSize centre) ⌈r / cellSize⌉ := by
  obtain ⟨hx, hy, hz⟩ := abs_sub_le_of_distSq hr h
  unfold cellKeyFor
  rw [if_neg (not_le.mpr hpos), if_neg (not_le.mpr hpos)]
  exact mem_cellBlock
    (k := (⌊p.x * (1 / cellSize)⌋, ⌊p.y * (1 / cellSize)⌋, ⌊p.z * (1 / cellSize)⌋))
    (c := (⌊centre.x * (1 / cellSize)⌋, ⌊centre.y * (1 / cellSize)⌋, ⌊centre.z * (1 / cellSize)⌋))
    (floor_sub_floor_le hpos hx) (floor_sub_floor_le hpos hy) (floor_sub_floor_le hpos hz)

end MithAtomas
