import MithAtomas.Systems.FlockingStorage

/-!
# No preferred place or direction

A rigid motion of the whole swarm, a shift with a rotation or a reflection, turns the velocity that
`FlockingSystem::tick` computes and changes nothing else about it: no axis is treated unlike
another, and no coordinate matters but for differences. This is so in exact arithmetic, whatever the
square root, and whatever the cells are in which the moved neighbours lie (`exactTick_move`).
-/

namespace MithAtomas

/-- A rigid motion: the columns of its matrix are orthonormal. -/
structure RigidMotion where
  xx : ℚ
  xy : ℚ
  xz : ℚ
  yx : ℚ
  yy : ℚ
  yz : ℚ
  zx : ℚ
  zy : ℚ
  zz : ℚ
  shift : PositionComponent ℚ
  col_x : xx * xx + yx * yx + zx * zx = 1
  col_y : xy * xy + yy * yy + zy * zy = 1
  col_z : xz * xz + yz * yz + zz * zz = 1
  col_xy : xx * xy + yx * yy + zx * zy = 0
  col_xz : xx * xz + yx * yz + zx * zz = 0
  col_yz : xy * xz + yy * yz + zy * zz = 0

namespace RigidMotion

variable (g : RigidMotion)

/-- A direction, which is only turned. -/
def turn (v : VelocityComponent ℚ) : VelocityComponent ℚ where
  vx := g.xx * v.vx + g.xy * v.vy + g.xz * v.vz
  vy := g.yx * v.vx + g.yy * v.vy + g.yz * v.vz
  vz := g.zx * v.vx + g.zy * v.vy + g.zz * v.vz

/-- The sum of `n` positions. -/
def moveSum (n : ℕ) (p : PositionComponent ℚ) : PositionComponent ℚ where
  x := g.xx * p.x + g.xy * p.y + g.xz * p.z + n * g.shift.x
  y := g.yx * p.x + g.yy * p.y + g.yz * p.z + n * g.shift.y
  z := g.zx * p.x + g.zy * p.y + g.zz * p.z + n * g.shift.z

def move (p : PositionComponent ℚ) : PositionComponent ℚ :=
  g.moveSum 1 p

def moveEntry (e : Entry ℚ) : Entry ℚ :=
  { e with position := g.move e.position, velocity := g.turn e.velocity }

/-- **Lengths stay.** -/
theorem norm_turn (a b c : ℚ) :
    (g.xx * a + g.xy * b + g.xz * c) * (g.xx * a + g.xy * b + g.xz * c) +
      (g.yx * a + g.yy * b + g.yz * c) * (g.yx * a + g.yy * b + g.yz * c) +
      (g.zx * a + g.zy * b + g.zz * c) * (g.zx * a + g.zy * b + g.zz * c) =
    a * a + b * b + c * c := by
  linear_combination a * a * g.col_x + b * b * g.col_y + c * c * g.col_z +
    2 * a * b * g.col_xy + 2 * a * c * g.col_xz + 2 * b * c * g.col_yz

theorem turn_zero : g.turn ⟨0, 0, 0⟩ = ⟨0, 0, 0⟩ := by
  unfold turn
  simp only [mul_zero, add_zero]

/-- Differences are turned. -/
theorem sub_move (p q : PositionComponent ℚ) :
    (g.move p).x - (g.move q).x =
      g.xx * (p.x - q.x) + g.xy * (p.y - q.y) + g.xz * (p.z - q.z) ∧
    (g.move p).y - (g.move q).y =
      g.yx * (p.x - q.x) + g.yy * (p.y - q.y) + g.yz * (p.z - q.z) ∧
    (g.move p).z - (g.move q).z =
      g.zx * (p.x - q.x) + g.zy * (p.y - q.y) + g.zz * (p.z - q.z) := by
  unfold move moveSum
  refine ⟨?_, ?_, ?_⟩ <;> ring

theorem distSq_move (p q : PositionComponent ℚ) :
    (g.move p).distSq (g.move q) = p.distSq q := by
  obtain ⟨hx, hy, hz⟩ := g.sub_move p q
  unfold PositionComponent.distSq
  dsimp only
  rw [hx, hy, hz]
  exact g.norm_turn _ _ _

end RigidMotion

namespace FlockingSystem

open RigidMotion

variable {sqrt : ℚ → ℚ} {params : Params ℚ} {selfPos : PositionComponent ℚ}
  {selfVel : VelocityComponent ℚ} {deltaTime : ℚ} (g : RigidMotion)

/-- The accumulators of the moved swarm. -/
def Sums.move (s : Sums ℚ) : Sums ℚ where
  sep := g.turn s.sep
  align := g.turn s.align
  coh := g.moveSum s.n s.coh
  n := s.n

theorem consider_move (s : Sums ℚ) (nb : Entry ℚ) :
    letI := withSqrt sqrt
    consider params (g.move selfPos) (s.move g) (g.moveEntry nb) =
      (consider params selfPos s nb).move g := by
  obtain ⟨hx, hy, hz⟩ := g.sub_move selfPos nb.position
  unfold consider
  dsimp only [moveEntry]
  rw [hx, hy, hz, g.norm_turn]
  unfold Sums.move
  dsimp only
  congr 1
  · -- the push of a neighbour that is near is turned as well
    split
    · unfold turn
      dsimp only
      congr 1 <;> ring
    · rfl
  · unfold turn
    dsimp only
    congr 1 <;> ring
  · unfold RigidMotion.move moveSum
    dsimp only
    congr 1 <;> push_cast <;> ring

theorem foldl_move (sqrt : ℚ → ℚ) (params : Params ℚ) (selfPos : PositionComponent ℚ)
    (nbs : List (Entry ℚ)) (s : Sums ℚ) :
    letI := withSqrt sqrt
    (nbs.map g.moveEntry).foldl (consider params (g.move selfPos)) (s.move g) =
      (nbs.foldl (consider params selfPos) s).move g := by
  -- neighbour by neighbour, with the accumulators moved throughout
  induction nbs generalizing s with
  | nil => rfl
  | cons nb nbs ih =>
    rw [List.map_cons, List.foldl_cons, List.foldl_cons, consider_move]
    exact ih _

theorem accelerate_move {s : Sums ℚ} (hn : s.n ≠ 0) :
    letI := withSqrt sqrt
    accelerate params (g.move selfPos) (g.turn selfVel) deltaTime (s.move g) =
      g.turn (accelerate params selfPos selfVel deltaTime s) := by
  have hinv : (s.n : ℚ) * (1 / s.n) = 1 := mul_one_div_cancel (Nat.cast_ne_zero.mpr hn)
  unfold accelerate Sums.move turn RigidMotion.move moveSum
  dsimp only
  -- the mean of the positions is moved by the whole shift, and so is the robot: the shift cancels
  congr 1
  · linear_combination deltaTime * params.cohesionWeight * g.shift.x * hinv
  · linear_combination deltaTime * params.cohesionWeight * g.shift.y * hinv
  · linear_combination deltaTime * params.cohesionWeight * g.shift.z * hinv

theorem clampSpeed_turn (sqrt : ℚ → ℚ) (params : Params ℚ) (v : VelocityComponent ℚ) :
    letI := withSqrt sqrt
    clampSpeed params (g.turn v) = g.turn (clampSpeed params v) := by
  have hnorm := g.norm_turn v.vx v.vy v.vz
  unfold clampSpeed turn
  dsimp only
  rw [hnorm]
  split
  · dsimp only
    congr 1 <;> ring
  · rfl

/-- **A scan of a moved swarm.** -/
theorem exactScan_move (nbs : List (Entry ℚ)) :
    exactScan sqrt params (g.move selfPos) (g.turn selfVel) deltaTime (nbs.map g.moveEntry) =
      g.turn (exactScan sqrt params selfPos selfVel deltaTime nbs) := by
  let := withSqrt sqrt
  have hzero : (Sums.zero : Sums ℚ).move g = Sums.zero := by
    unfold Sums.move Sums.zero moveSum
    rw [g.turn_zero]
    simp
  have hfold := foldl_move g sqrt params selfPos nbs Sums.zero
  rw [hzero] at hfold
  unfold exactScan fullScan
  dsimp only
  rw [hfold]
  by_cases hn : (nbs.foldl (consider params selfPos) Sums.zero).n = 0
  · rw [if_pos hn]
    exact if_pos hn
  · have hclamp := clampSpeed_turn g sqrt params
    rw [if_neg hn, ← hclamp, ← accelerate_move g hn]
    exact if_neg hn

theorem inView_move (nbs : List (Entry ℚ)) :
    inView params (g.move selfPos) (nbs.map g.moveEntry) =
      (inView params selfPos nbs).map g.moveEntry := by
  unfold inView
  split
  · rw [List.filter_map]
    refine congrArg (List.map g.moveEntry) (List.filter_congr fun e _ => ?_)
    show decide ((g.move e.position).distSq (g.move selfPos) ≤ _) = _
    rw [g.distSq_move]
  · rfl

/-- **No preferred place or direction.** The tick of a swarm that was moved as a whole gives the
velocity that the tick of the other one gives, turned: for any table that holds the moved entries,
in any order and in cells of any size, as long as what the two queries compute fits. -/
theorem exactTick_move {sys : FlockingSystem ℚ} {nt nt' : NeighbourTable ℚ} (h : nt.Indexed)
    (h' : nt'.Indexed) (hentries : nt'.entries.Perm (nt.entries.map g.moveEntry))
    (hfits : Fits sys selfPos nt) (hfits' : Fits sys (g.move selfPos) nt') :
    ∃ v, exactTick? sqrt sys nt selfPos selfVel deltaTime = some v ∧
      exactTick? sqrt sys nt' (g.move selfPos) (g.turn selfVel) deltaTime = some (g.turn v) := by
  refine ⟨_, exactTick?_eq h hfits, ?_⟩
  rw [exactTick?_eq h' hfits', exactScan_perm (inView_perm hentries), inView_move, exactScan_move]

/-- A quarter turn about the vertical axis, and then ten metres along. -/
def quarterTurn : RigidMotion where
  xx := 0
  xy := -1
  xz := 0
  yx := 1
  yy := 0
  yz := 0
  zx := 0
  zy := 0
  zz := 1
  shift := ⟨10, 0, 0⟩
  col_x := by norm_num
  col_y := by norm_num
  col_z := by norm_num
  col_xy := by norm_num
  col_xz := by norm_num
  col_yz := by norm_num

/-- A beacon of peer `n`, seen from the moved swarm. -/
def turnedBeacon (n : ℕ) : StateVector ℚ :=
  { beaconOfPeer n with position := quarterTurn.move (beaconOfPeer n).position }

open NeighbourTable

/-- The table of the moved swarm, in cells of 4 m. -/
def turnedTable : NeighbourTable ℚ :=
  (empty : NeighbourTable ℚ).run
    [.setCellSizeM 4, .upsert (turnedBeacon 8) 0 none, .upsert (turnedBeacon 3) 0 none]

theorem turnedTable_fits :
    Fits ⟨⟨5, 3 / 2, 1, 1, 5, 30⟩⟩ (quarterTurn.move ⟨0, 0, 0⟩) turnedTable := by
  have hsize : turnedTable.cellSizeM = 4 := rfl
  have hspan : ⌈(30 : ℚ) / 4⌉ = 8 := by norm_num [Int.ceil_eq_iff]
  have hcentre : quarterTurn.move ⟨0, 0, 0⟩ = ⟨10, 0, 0⟩ := by
    norm_num [move, moveSum, quarterTurn]
  have hcell : cellOf 4 ⟨10, 0, 0⟩ = (2, 0, 0) := by
    norm_num [cellOf, Int.floor_eq_iff]
  rw [hcentre]
  intro _ _
  show QueryFits _ _ 30
  constructor
  · rw [hsize]
    norm_num [CellFits, FitsInt32, Int.floor_eq_iff]
  · rw [hsize, hspan]
    decide
  · rw [hsize, hspan]
    decide
  · rw [hsize, hspan, hcell]
    exact blockFits_of_le (b := 2) (by decide) (by decide) (by decide) (by decide)

/-- Two peers in cells of 5 m, and the two in the other order after a quarter turn. -/
theorem quarterTurn_velocity : ∃ v,
    exactTick? id ⟨⟨5, 3 / 2, 1, 1, 5, 30⟩⟩
        ((empty : NeighbourTable ℚ).run
          [.upsert (beaconOfPeer 3) 0 none, .upsert (beaconOfPeer 8) 0 none])
        ⟨0, 0, 0⟩ ⟨0, 1, 0⟩ 1 = some v ∧
      exactTick? id ⟨⟨5, 3 / 2, 1, 1, 5, 30⟩⟩ turnedTable
        (quarterTurn.move ⟨0, 0, 0⟩) (quarterTurn.turn ⟨0, 1, 0⟩) 1 =
          some (quarterTurn.turn v) := by
  have hentry : ∀ n, quarterTurn.moveEntry (.ofBeacon (beaconOfPeer n) 0 none) =
      .ofBeacon (turnedBeacon n) 0 none := by
    intro n
    unfold moveEntry
    rw [show (Entry.ofBeacon (beaconOfPeer n) 0 none).velocity = ⟨0, 0, 0⟩ from rfl,
      quarterTurn.turn_zero]
    rfl
  refine exactTick_move quarterTurn (indexed_empty.run _) (indexed_empty.run _) ?_
    twoCells_fit.query turnedTable_fits
  show List.Perm [.ofBeacon (turnedBeacon 8) 0 none, .ofBeacon (turnedBeacon 3) 0 none]
    [quarterTurn.moveEntry (.ofBeacon (beaconOfPeer 3) 0 none),
      quarterTurn.moveEntry (.ofBeacon (beaconOfPeer 8) 0 none)]
  rw [hentry, hentry]
  exact List.Perm.swap _ _ _

end FlockingSystem

end MithAtomas
