import MithAtomas.Sim.SimBusDelivery

/-!
# The bus, with its arithmetic checked

The functions of `SimBus` that compute cells, with every conversion to an `int` and every sum of
`int`s checked (`rebuildGrid?`, `deliverBeacon?`, `deliverMessage?`). `DefinedReachable` is every
state that a bus can be in as long as all of it has been defined.

In such a state a delivery reaches exactly those in range if its own cells fit, and if whoever is in
range was filed in a cell next to the sender's (`delivery_exact_iff`).
-/

namespace MithAtomas

open Definedness HashGrid

namespace SimBus

section

variable {F : Type} [CheckedScalar F] (b : SimBus F)

/-- The loop of `rebuild_grid_`, from participant `i` on. -/
def fileFrom? (cellSize : F) :
    ℕ → List (Participant F) → Grid CellKey → Option (Grid CellKey)
  | _, [], g => some g
  | i, p :: ps, g =>
    match p.posFn with
    | none => fileFrom? cellSize (i + 1) ps g
    | some pos => do
      let cell ← cellKeyFor? cellSize pos
      fileFrom? cellSize (i + 1) ps (file g cell i)

/-- `rebuild_grid_`. -/
def rebuildGrid? : Option (SimBus F) :=
  (if b.commRangeM ≤ 0 then some ∅ else fileFrom? b.commRangeM 0 b.participants ∅).map
    fun grid => { b with gridCellSizeM := b.commRangeM, grid := grid }

/-- Who gets a beacon or a broadcast sent from `fromPos`, in order. -/
def recipients? (fromIdx : ℕ) (fromPos : PositionComponent F) : Option (List ℕ) :=
  if 0 < b.gridCellSizeM ∧ b.grid.entries ≠ [] then do
    let centre ← cellKeyFor? b.gridCellSizeM fromPos
    let ds ← counter? 1
    let block ← cellBlock? centre ds
    some ((visit b.grid block).filterMap (b.accepts fromIdx fromPos))
  else some ((List.range b.participants.length).filterMap (b.accepts fromIdx fromPos))

/-- `deliver_beacon_`. -/
def deliverBeacon? (fromIdx : ℕ) (sv : StateVector F) : Option (SimBus F) :=
  match b.position fromIdx with
  | none => some b
  | some fromPos =>
    (b.recipients? fromIdx fromPos).map fun tos => b.updateAll (Participant.receiveBeacon sv) tos

/-- `deliver_message_`. -/
def deliverMessage? (fromIdx : ℕ) (msg : Message F) : Option (SimBus F) :=
  if isBroadcast msg.recipient then
    match b.position fromIdx with
    | none => some b
    | some fromPos =>
      (b.recipients? fromIdx fromPos).map fun tos =>
        b.updateAll (Participant.receiveMessage msg) tos
  else some (b.deliverMessage fromIdx msg)

/-- **The states of a bus** whose conversions and sums have all been defined, with the positions the
grid was last built from. -/
inductive DefinedReachable (range : F) : SimBus F → List (PositionComponent F) → Prop
  | init : DefinedReachable range (SimBus.init range) []
  | createWorld {b : SimBus F} {filed : List (PositionComponent F)}
      (h : DefinedReachable range b filed) (identity : HierarchicalID) (pos : PositionComponent F) :
      DefinedReachable range (b.createWorld identity pos) filed
  | rebuildGrid {b b' : SimBus F} {filed : List (PositionComponent F)}
      (h : DefinedReachable range b filed) (hb' : b.rebuildGrid? = some b') :
      DefinedReachable range b' b.positions
  | setPosition {b : SimBus F} {filed : List (PositionComponent F)}
      (h : DefinedReachable range b filed) (idx : ℕ) (pos : PositionComponent F) :
      DefinedReachable range (b.setPosition idx pos) filed
  | setIdentity {b : SimBus F} {filed : List (PositionComponent F)}
      (h : DefinedReachable range b filed) (idx : ℕ) (identity : HierarchicalID) :
      DefinedReachable range (b.setIdentity idx identity) filed
  | deliverBeacon {b b' : SimBus F} {filed : List (PositionComponent F)}
      (h : DefinedReachable range b filed) {fromIdx : ℕ} {sv : StateVector F}
      (hb' : b.deliverBeacon? fromIdx sv = some b') : DefinedReachable range b' filed
  | deliverMessage {b b' : SimBus F} {filed : List (PositionComponent F)}
      (h : DefinedReachable range b filed) {fromIdx : ℕ} {msg : Message F}
      (hb' : b.deliverMessage? fromIdx msg = some b') : DefinedReachable range b' filed
  | drainInboxBeacons {b : SimBus F} {filed : List (PositionComponent F)}
      (h : DefinedReachable range b filed) (idx : ℕ) :
      DefinedReachable range (b.drainInboxBeacons idx).2 filed
  | drainInboxMessages {b : SimBus F} {filed : List (PositionComponent F)}
      (h : DefinedReachable range b filed) (idx : ℕ) :
      DefinedReachable range (b.drainInboxMessages idx).2 filed

end

/-! ### Where they are defined -/

variable {range : ℚ} {b b' : SimBus ℚ} {filed : List (PositionComponent ℚ)} {fromIdx : ℕ}
  {fromPos : PositionComponent ℚ}

theorem computes_fileFrom? {cellSize : ℚ} (hsize : ¬ cellSize ≤ 0) (ps : List (Participant ℚ))
    (i : ℕ) (g : Grid CellKey) :
    Computes (fileFrom? cellSize i ps g) (fileFrom cellSize i ps g)
      (∀ pos ∈ ps.filterMap Participant.posFn, CellFits cellSize pos) := by
  induction ps generalizing i g with
  | nil => exact (computes_some g).congr (fun _ => rfl) (by simp)
  | cons p ps ih =>
    unfold fileFrom? fileFrom
    cases hpos : p.posFn with
    | none =>
      rw [List.filterMap_cons_none hpos]
      exact ih (i + 1) g
    | some pos =>
      rw [List.filterMap_cons_some hpos]
      refine ((computes_cellKeyFor? cellSize pos).bind fun _ => ih (i + 1) _).congr
        (fun _ => rfl) ?_
      rw [List.forall_mem_cons]
      exact and_congr_left fun _ => ⟨fun h => h hsize, fun h _ => h⟩

/-- **A rebuild** needs the cells of all positions. -/
theorem computes_rebuildGrid? (b : SimBus ℚ) :
    Computes b.rebuildGrid? b.rebuildGrid
      (0 < b.commRangeM → ∀ pos ∈ b.positions, CellFits b.commRangeM pos) := by
  unfold rebuildGrid? rebuildGrid
  by_cases hsize : b.commRangeM ≤ 0
  · rw [if_pos hsize, if_pos hsize]
    exact (computes_some _).congr (fun _ => rfl)
      (iff_of_true trivial fun hpos => absurd hsize (not_le.mpr hpos))
  · rw [if_neg hsize, if_neg hsize]
    exact ((computes_fileFrom? hsize b.participants 0 ∅).map _).congr (fun _ => rfl)
      ⟨fun h _ => h, fun h => h (not_le.mp hsize)⟩

/-- **A delivery** needs the cell of the sender and the 26 around it, if it looks into the grid. -/
theorem computes_recipients? (b : SimBus ℚ) (fromIdx : ℕ) (fromPos : PositionComponent ℚ) :
    Computes (b.recipients? fromIdx fromPos) (b.recipients fromIdx fromPos)
      (0 < b.gridCellSizeM ∧ b.grid.entries ≠ [] →
        CellFits b.gridCellSizeM fromPos ∧ BlockFits (cellOf b.gridCellSizeM fromPos) 1) := by
  unfold recipients? recipients
  split
  · next hgrid =>
    have hsize : ¬ b.gridCellSizeM ≤ 0 := not_le.mpr hgrid.1
    have hcounter : Computes (counter? 1) (offsets 1) True :=
      (computes_counter? 1).congr (fun _ => rfl) (iff_of_true (by decide) trivial)
    refine Computes.congr (Computes.bind (computes_cellKeyFor? _ _) fun _ =>
      Computes.bind hcounter fun _ => Computes.bind (computes_cellBlock? _ _) fun _ =>
        computes_some _) (fun _ => rfl) ?_
    rw [and_true, true_and]
    -- where the sender's cell fits, it is the exact one
    constructor
    · rintro ⟨hcell, hblock⟩ -
      rw [cellKeyFor_eq hgrid.1 (hcell hsize)] at hblock
      exact ⟨hcell hsize, hblock⟩
    · intro h
      obtain ⟨hcell, hblock⟩ := h hgrid
      rw [cellKeyFor_eq hgrid.1 hcell]
      exact ⟨fun _ => hcell, hblock⟩
  · next hscan =>
    exact (computes_some _).congr (fun _ => rfl) (iff_of_true trivial fun h => absurd h hscan)

theorem deliverBeacon_of_some {sv : StateVector ℚ} (h : b.deliverBeacon? fromIdx sv = some b') :
    b' = b.deliverBeacon fromIdx sv := by
  unfold deliverBeacon? at h
  unfold deliverBeacon
  cases hpos : b.position fromIdx with
  | none =>
    rw [hpos] at h
    exact (Option.some.inj h).symm
  | some fromPos =>
    rw [hpos] at h
    obtain ⟨tos, htos, rfl⟩ := Option.map_eq_some_iff.mp h
    rw [((computes_recipients? b fromIdx fromPos).eq_some_iff tos).mp htos |>.1]

theorem deliverMessage_of_some {msg : Message ℚ} (h : b.deliverMessage? fromIdx msg = some b') :
    b' = b.deliverMessage fromIdx msg := by
  unfold deliverMessage? at h
  by_cases hmsg : isBroadcast msg.recipient = true
  · rw [if_pos hmsg] at h
    unfold deliverMessage
    rw [if_pos hmsg]
    cases hpos : b.position fromIdx with
    | none =>
      rw [hpos] at h
      exact (Option.some.inj h).symm
    | some fromPos =>
      rw [hpos] at h
      obtain ⟨tos, htos, rfl⟩ := Option.map_eq_some_iff.mp h
      rw [((computes_recipients? b fromIdx fromPos).eq_some_iff tos).mp htos |>.1]
  · rw [if_neg hmsg] at h
    exact (Option.some.inj h).symm

/-- **Nothing is lost by the checks**: such a state is one of the bus without them. -/
theorem DefinedReachable.reachable (h : DefinedReachable range b filed) :
    Reachable range b filed := by
  induction h with
  | init => exact .init
  | createWorld _ identity pos ih => exact ih.createWorld identity pos
  | @rebuildGrid b b' _ _ hb' ih =>
    obtain ⟨rfl, -⟩ := ((computes_rebuildGrid? b).eq_some_iff b').mp hb'
    exact ih.rebuildGrid
  | setPosition _ idx pos ih => exact ih.setPosition idx pos
  | setIdentity _ idx identity ih => exact ih.setIdentity idx identity
  | deliverBeacon _ hb' ih =>
    rw [deliverBeacon_of_some hb']
    exact ih.deliverBeacon _ _
  | deliverMessage _ hb' ih =>
    rw [deliverMessage_of_some hb']
    exact ih.deliverMessage _ _
  | drainInboxBeacons _ idx ih => exact ih.drainInboxBeacons idx
  | drainInboxMessages _ idx ih => exact ih.drainInboxMessages idx

/-- Everybody was filed in a cell that fits. -/
theorem DefinedReachable.filed_fits (h : DefinedReachable range b filed) (hpos : 0 < range) :
    ∀ pos ∈ filed, CellFits range pos := by
  induction h with
  | init => exact fun _ hmem => absurd hmem List.not_mem_nil
  | @rebuildGrid b b' _ hreach hb' ih =>
    have hfits := (((computes_rebuildGrid? b).eq_some_iff b').mp hb').2
    rw [(Bus.of_reachable hreach.reachable).commRange_eq] at hfits
    exact hfits hpos
  | createWorld _ _ _ ih | setPosition _ _ _ ih | setIdentity _ _ _ ih | deliverBeacon _ _ ih
  | deliverMessage _ _ ih | drainInboxBeacons _ _ ih | drainInboxMessages _ _ ih => exact ih

/-! ### When a delivery is exact -/

/-- The cells are the same, or next to each other. -/
def Adjacent (range : ℚ) (p q : PositionComponent ℚ) : Prop :=
  |(cellOf range p).1 - (cellOf range q).1| ≤ 1 ∧
    |(cellOf range p).2.1 - (cellOf range q).2.1| ≤ 1 ∧
    |(cellOf range p).2.2 - (cellOf range q).2.2| ≤ 1

/-- If the delivery looks into the grid, the cell of the sender and the 26 around it fit. -/
def DeliveryFits (range : ℚ) (filed : List (PositionComponent ℚ))
    (fromPos : PositionComponent ℚ) : Prop :=
  0 < range → filed ≠ [] → CellFits range fromPos ∧ BlockFits (cellOf range fromPos) 1

/-- Whoever is now within the magnitude of the range is in range, and if the delivery looks into the
grid, it was filed in a cell next to the sender's. The first part is about negative ranges, which
the code squares. -/
def FiledNextTo (range : ℚ) (b : SimBus ℚ) (filed : List (PositionComponent ℚ)) (fromIdx : ℕ)
    (fromPos : PositionComponent ℚ) : Prop :=
  ∀ k pos, k ≠ fromIdx → b.position k = some pos → pos.distSq fromPos ≤ range * range →
    0 ≤ range ∧ (0 < range → filed ≠ [] →
      ∃ old, filed[k]? = some old ∧ Adjacent range old fromPos)

/-- Where nothing overflows, the 27 cells are those next to the sender's. -/
theorem mem_cellBlock_iff {p q : PositionComponent ℚ} (hpos : 0 < range) (hp : CellFits range p)
    (hq : CellFits range q) (hblock : BlockFits (cellOf range q) 1) :
    cellKeyFor range p ∈ cellBlock (cellKeyFor range q) 1 ↔ Adjacent range p q := by
  rw [cellKeyFor_eq hpos hp, cellKeyFor_eq hpos hq]
  constructor
  · intro hmem
    obtain ⟨dz, hdz, hmem⟩ := List.mem_flatMap.mp hmem
    obtain ⟨dy, hdy, hmem⟩ := List.mem_flatMap.mp hmem
    obtain ⟨dx, hdx, hkey⟩ := List.mem_map.mp hmem
    rw [int32_of_fits (hblock dx hdx).1, int32_of_fits (hblock dy hdy).2.1,
      int32_of_fits (hblock dz hdz).2.2] at hkey
    unfold Adjacent
    rw [← hkey]
    simp only [add_sub_cancel_left, abs_le]
    exact ⟨mem_offsets.mp hdx, mem_offsets.mp hdy, mem_offsets.mp hdz⟩
  · rintro ⟨hx, hy, hz⟩
    have hmem := mem_cellBlock hx hy hz
    unfold CellFits at hp hq
    unfold cellOf at hmem ⊢
    rw [int32_of_fits hp.1, int32_of_fits hp.2.1, int32_of_fits hp.2.2, int32_of_fits hq.1,
      int32_of_fits hq.2.1, int32_of_fits hq.2.2] at hmem
    exact hmem

theorem DefinedReachable.filedNearby_iff (h : DefinedReachable range b filed)
    (hfits : DeliveryFits range filed fromPos) :
    FiledNearby range b filed fromIdx fromPos ↔ FiledNextTo range b filed fromIdx fromPos := by
  unfold FiledNearby FiledNextTo FiledAround
  refine forall₂_congr fun k pos => forall₃_congr fun _ _ _ => and_congr_right fun _ => ?_
  refine forall₂_congr fun hpos hne => exists_congr fun old => and_congr_right fun hold => ?_
  obtain ⟨hcell, hblock⟩ := hfits hpos hne
  exact mem_cellBlock_iff hpos (h.filed_fits hpos old (List.mem_of_getElem? hold)) hcell hblock

/-- What a delivery needs, of a bus with its history. -/
theorem Bus.computes_recipients? (h : Bus range b filed) (fromIdx : ℕ)
    (fromPos : PositionComponent ℚ) :
    Computes (b.recipients? fromIdx fromPos) (b.recipients fromIdx fromPos)
      (DeliveryFits range filed fromPos) := by
  refine (SimBus.computes_recipients? b fromIdx fromPos).congr (fun _ => rfl) ?_
  rw [h.usesGrid_iff, and_imp]
  refine forall₂_congr fun _ hne => ?_
  rw [h.gridCellSizeM_eq hne]

/-- **When beacons and broadcasts reach exactly those in range**, in any state of the bus. -/
theorem delivery_exact_iff (hreach : DefinedReachable range b filed)
    (hpos : b.position fromIdx = some fromPos) (sv : StateVector ℚ) (msg : Message ℚ)
    (hmsg : isBroadcast msg.recipient = true) :
    ((∃ b', b.deliverBeacon? fromIdx sv = some b' ∧
        DeliversOnce b b' fromIdx fromPos (Participant.receiveBeacon sv)) ∧
      ∃ b', b.deliverMessage? fromIdx msg = some b' ∧
        DeliversOnce b b' fromIdx fromPos (Participant.receiveMessage msg)) ↔
    DeliveryFits range filed fromPos ∧ FiledNextTo range b filed fromIdx fromPos := by
  have h := Bus.of_reachable hreach.reachable
  have hrecipients := h.computes_recipients? fromIdx fromPos
  have hbeacon : b.deliverBeacon? fromIdx sv =
      (b.recipients? fromIdx fromPos).map fun tos =>
        b.updateAll (Participant.receiveBeacon sv) tos := by
    unfold deliverBeacon?
    rw [hpos]
  have hmessage : b.deliverMessage? fromIdx msg =
      (b.recipients? fromIdx fromPos).map fun tos =>
        b.updateAll (Participant.receiveMessage msg) tos := by
    unfold deliverMessage?
    rw [if_pos hmsg, hpos]
  -- a delivery is defined where its own cells fit, and gives a copy to each recipient
  have hexact : ∀ {receive : Participant ℚ → Participant ℚ}, Receipt receive →
      ((∃ b', ((b.recipients? fromIdx fromPos).map fun tos => b.updateAll receive tos) = some b' ∧
          DeliversOnce b b' fromIdx fromPos receive) ↔
        DeliveryFits range filed fromPos ∧ FiledNextTo range b filed fromIdx fromPos) := by
    intro receive hreceipt
    simp only [(hrecipients.map _).eq_some_iff]
    constructor
    · rintro ⟨_, ⟨rfl, hfits⟩, honce⟩
      exact ⟨hfits, (hreach.filedNearby_iff hfits).mp ((h.deliversOnce_iff hreceipt).mp honce)⟩
    · rintro ⟨hfits, hnear⟩
      exact ⟨_, ⟨rfl, hfits⟩,
        (h.deliversOnce_iff hreceipt).mpr ((hreach.filedNearby_iff hfits).mpr hnear)⟩
  rw [hbeacon, hmessage, hexact (receipt_beacon sv), hexact (receipt_message msg), and_self]

/-- Two robots on the x axis, and the grid built while they were there. -/
def twoRobots (x y : ℚ) : SimBus ℚ :=
  (((SimBus.init 10).createWorld {} ⟨x, 0, 0⟩).createWorld {} ⟨y, 0, 0⟩).rebuildGrid

theorem twoRobots_reachable {x y : ℚ} (hx : CellFits 10 ⟨x, 0, 0⟩) (hy : CellFits 10 ⟨y, 0, 0⟩) :
    DefinedReachable 10 (twoRobots x y) [⟨x, 0, 0⟩, ⟨y, 0, 0⟩] := by
  refine ((DefinedReachable.init.createWorld {} ⟨x, 0, 0⟩).createWorld {} ⟨y, 0, 0⟩).rebuildGrid
    ((computes_rebuildGrid? _).eq_some fun _ pos hmem => ?_)
  rcases List.mem_pair.mp hmem with rfl | rfl
  · exact hx
  · exact hy

/-- Robots 7 m apart, in neighbouring cells, and not moving. -/
theorem twoRobots_delivery : ∃ b', (twoRobots 5 12).deliverBeacon? 0 StateVector.empty = some b' ∧
    DeliversOnce (twoRobots 5 12) b' 0 ⟨5, 0, 0⟩ (Participant.receiveBeacon StateVector.empty) := by
  have hsender : cellOf 10 ⟨5, 0, 0⟩ = (0, 0, 0) := by norm_num [cellOf, Int.floor_eq_iff]
  have hreceiver : cellOf 10 ⟨12, 0, 0⟩ = (1, 0, 0) := by norm_num [cellOf, Int.floor_eq_iff]
  have hfits : CellFits 10 ⟨5, 0, 0⟩ := by norm_num [CellFits, FitsInt32]
  have hfits' : CellFits 10 ⟨12, 0, 0⟩ := by norm_num [CellFits, FitsInt32]
  refine ((delivery_exact_iff (twoRobots_reachable hfits hfits') rfl StateVector.empty Message.empty
    (by decide)).mpr ⟨fun _ _ => ⟨hfits, ?_⟩, ?_⟩).1
  · rw [hsender]
    exact blockFits_of_le (b := 0) (by decide) (by decide) (by decide) (by decide)
  · intro k pos hk hpos hd
    obtain rfl : k = 1 := by
      have hlt : k < 2 := lt_of_position hpos
      omega
    refine ⟨by norm_num, fun _ _ => ⟨⟨12, 0, 0⟩, rfl, ?_⟩⟩
    unfold Adjacent
    rw [hsender, hreceiver]
    decide

/-- **A move across a cell border within a step.** The receiver was filed at 20.1 m, in cell 2, and
comes back to 19.9 m; it is then exactly in range of a sender at 9.9 m, whose cell is 0. -/
theorem moved_robot_not_reached :
    ¬ ∀ (range : ℚ) (b b' : SimBus ℚ) (filed : List (PositionComponent ℚ)) (fromIdx : ℕ)
      (fromPos : PositionComponent ℚ) (sv : StateVector ℚ), DefinedReachable range b filed →
        b.position fromIdx = some fromPos → b.deliverBeacon? fromIdx sv = some b' →
        DeliversOnce b b' fromIdx fromPos (Participant.receiveBeacon sv) := by
  intro hclaim
  have hsender : cellOf (10 : ℚ) ⟨99 / 10, 0, 0⟩ = (0, 0, 0) := by norm_num [cellOf]
  have hreceiver : cellOf (10 : ℚ) ⟨201 / 10, 0, 0⟩ = (2, 0, 0) := by norm_num [cellOf]
  have hfits : CellFits 10 ⟨99 / 10, 0, 0⟩ := by norm_num [CellFits, FitsInt32]
  have hfits' : CellFits 10 ⟨201 / 10, 0, 0⟩ := by norm_num [CellFits, FitsInt32]
  have hreach := (twoRobots_reachable hfits hfits').setPosition 1 ⟨199 / 10, 0, 0⟩
  have h := Bus.of_reachable hreach.reachable
  have hdelivery : DeliveryFits 10 [⟨99 / 10, 0, 0⟩, ⟨201 / 10, 0, 0⟩] ⟨99 / 10, 0, 0⟩ := by
    refine fun _ _ => ⟨hfits, ?_⟩
    rw [hsender]
    exact blockFits_of_le (b := 0) (by decide) (by decide) (by decide) (by decide)
  -- the delivery is defined, and so would be exact
  have hdefined := (h.computes_recipients? 0 ⟨99 / 10, 0, 0⟩).eq_some hdelivery
  have honce := hclaim 10 _ _ _ 0 ⟨99 / 10, 0, 0⟩ StateVector.empty hreach rfl
    (congrArg (Option.map _) hdefined)
  have hnear := (hreach.filedNearby_iff hdelivery).mp
    ((h.deliversOnce_iff (receipt_beacon StateVector.empty)).mp honce)
  have hin : (⟨199 / 10, 0, 0⟩ : PositionComponent ℚ).distSq ⟨99 / 10, 0, 0⟩ ≤ 10 * 10 := by
    norm_num [PositionComponent.distSq]
  obtain ⟨-, hfiled⟩ := hnear 1 ⟨199 / 10, 0, 0⟩ (by decide) rfl hin
  obtain ⟨old, hold, hx, -⟩ := hfiled (by norm_num) (List.cons_ne_nil _ _)
  obtain rfl : (⟨201 / 10, 0, 0⟩ : PositionComponent ℚ) = old := Option.some.inj hold
  rw [hsender, hreceiver] at hx
  exact absurd hx (by decide)

end SimBus

end MithAtomas
