import MithAtomas.Core.WorldFootprint
import MithAtomas.Framework.Runs

/-!
# The speed limit

`FlockingSystem` cuts the speed to `max_speed_mps` and `KinematicsSystem` moves by the velocity,
each on its own, and in the order that the scheduler gives them. Over the real numbers, with the
square root that these have, no step of a shipped system breaks the limit, and none moves the robot
but by its velocity (`MotionStep.spec`), whatever arrives in between: the other systems write
neither the position nor the velocity (`tick_frame`). `MoveActionHandler` does, with the speed that
an action asks for, and is not part of these runs.
-/

namespace MithAtomas

open Runs

/-! ### Vectors -/

abbrev Space := EuclideanSpace ℝ (Fin 3)

noncomputable def PositionComponent.vec (p : PositionComponent ℝ) : Space :=
  !₂[p.x, p.y, p.z]

noncomputable def VelocityComponent.vec (v : VelocityComponent ℝ) : Space :=
  !₂[v.vx, v.vy, v.vz]

theorem VelocityComponent.norm_vec (v : VelocityComponent ℝ) :
    ‖v.vec‖ = √(v.vx * v.vx + v.vy * v.vy + v.vz * v.vz) := by
  rw [EuclideanSpace.norm_eq, Fin.sum_univ_three]
  simp only [Real.norm_eq_abs, sq_abs]
  simp only [sq]
  rfl

/-- A velocity that is scaled, as the code does it. -/
theorem VelocityComponent.vec_scaled (v : VelocityComponent ℝ) (c : ℝ) :
    (VelocityComponent.mk (v.vx * c) (v.vy * c) (v.vz * c)).vec = c • v.vec := by
  ext i
  fin_cases i <;> exact mul_comm _ _

/-! ### The two systems -/

/-- The real numbers, whichever bits they have. -/
noncomputable abbrev reals (ofBits : UInt32 → ℝ) (toBits : ℝ → UInt32) : FloatScalar ℝ where
  decidableLT := inferInstance
  decidableLE := inferInstance
  abs := fun x => |x|
  floor := Int.floor
  ceil := Int.ceil
  sqrt := Real.sqrt
  ofBits := ofBits
  toBits := toBits

variable {ofBits : UInt32 → ℝ} {toBits : ℝ → UInt32}

/-- **The cut**, whatever the velocity was. -/
theorem norm_clampSpeed_le (params : FlockingSystem.Params ℝ) (v : VelocityComponent ℝ) :
    ‖(@FlockingSystem.clampSpeed ℝ (reals ofBits toBits) params v).vec‖ ≤ |params.maxSpeedMps| := by
  have hclamp : @FlockingSystem.clampSpeed ℝ (reals ofBits toBits) params v =
      if params.maxSpeedMps * params.maxSpeedMps < v.vx * v.vx + v.vy * v.vy + v.vz * v.vz ∧
          0 < v.vx * v.vx + v.vy * v.vy + v.vz * v.vz then
        ⟨v.vx * (params.maxSpeedMps / √(v.vx * v.vx + v.vy * v.vy + v.vz * v.vz)),
          v.vy * (params.maxSpeedMps / √(v.vx * v.vx + v.vy * v.vy + v.vz * v.vz)),
          v.vz * (params.maxSpeedMps / √(v.vx * v.vx + v.vy * v.vy + v.vz * v.vz))⟩
      else v := rfl
  rw [hclamp]
  split
  · next h =>
    -- the length is the limit now
    have hpos : 0 < ‖v.vec‖ := by
      rw [v.norm_vec]
      exact Real.sqrt_pos.mpr h.2
    rw [VelocityComponent.vec_scaled, norm_smul, ← v.norm_vec, Real.norm_eq_abs, abs_div,
      abs_of_pos hpos, div_mul_cancel₀ _ hpos.ne']
  · next h =>
    rw [v.norm_vec]
    refine Real.sqrt_le_iff.mpr ⟨abs_nonneg _, ?_⟩
    rw [sq_abs, sq]
    by_contra hlt
    have hfast := not_le.mp hlt
    exact h ⟨hfast, (mul_self_nonneg _).trans_lt hfast⟩

/-- A tick of `FlockingSystem` leaves the velocity, or cuts it. -/
theorem norm_flocking_le {sys : FlockingSystem ℝ} {nt : NeighbourTable ℝ}
    {pos : PositionComponent ℝ} {vel : VelocityComponent ℝ} {dt : ℝ}
    (h : ‖vel.vec‖ ≤ |sys.params.maxSpeedMps|) :
    ‖(@FlockingSystem.tick ℝ (reals ofBits toBits) sys nt pos vel dt).vec‖
      ≤ |sys.params.maxSpeedMps| := by
  unfold FlockingSystem.tick
  split
  · exact h
  · dsimp only
    split
    · exact h
    · exact norm_clampSpeed_le _ _

theorem vec_kinematics (pos : PositionComponent ℝ) (vel : VelocityComponent ℝ) (dt : ℝ) :
    (@KinematicsSystem.tick ℝ (reals ofBits toBits).toScalar vel dt pos).vec
      = pos.vec + dt • vel.vec := by
  ext i
  fin_cases i <;> exact congrArg (_ + ·) (mul_comm _ _)

/-! ### Runs -/

variable {U : Type}

/-- The tick of a shipped system, over the real numbers. -/
noncomputable def realTick (ofBits : UInt32 → ℝ) (toBits : ℝ → UInt32)
    (auth : Option SignatureScheme) (s : ShippedSystem) (w : World ℝ U) : World ℝ U :=
  letI := reals ofBits toBits
  s.tick auth w

/-- One tick of a system, or anything else that happens to a world: time advances, beacons arrive,
other systems run. The label is the time for which the robot moves. -/
inductive MotionStep (ofBits : UInt32 → ℝ) (toBits : ℝ → UInt32) (auth : Option SignatureScheme) :
    World ℝ U → ℝ → World ℝ U → Prop
  | system {w : World ℝ U} (s : ShippedSystem) (hs : s ≠ .move) :
      MotionStep ofBits toBits auth w (if s = .kinematics then w.context.deltaTimeS else 0)
        (realTick ofBits toBits auth s w)
  | outside {w w' : World ℝ U} (hposition : w'.position = w.position)
      (hvelocity : w'.velocity = w.velocity) (hflocking : w'.flocking = w.flocking) :
      MotionStep ofBits toBits auth w 0 w'

variable {auth : Option SignatureScheme} {w w' : World ℝ U}

theorem flocking_realTick (s : ShippedSystem) :
    (realTick ofBits toBits auth s w).flocking = w.flocking :=
  letI := reals ofBits toBits
  ShippedSystem.tick_frame s w (l := .flocking) (by cases s <;> decide)

/-- Only `KinematicsSystem` moves the robot. -/
theorem position_realTick {s : ShippedSystem} (hs : s ≠ .kinematics) :
    (realTick ofBits toBits auth s w).position = w.position :=
  letI := reals ofBits toBits
  ShippedSystem.tick_frame s w (l := .position)
    (by cases s <;> first | decide | exact absurd rfl hs)

/-- Besides an action, only `FlockingSystem` changes the velocity. -/
theorem velocity_realTick {s : ShippedSystem} (hs : s ≠ .flocking) (hmove : s ≠ .move) :
    (realTick ofBits toBits auth s w).velocity = w.velocity :=
  letI := reals ofBits toBits
  ShippedSystem.tick_frame s w (l := .velocity)
    (by cases s <;> first | decide | exact absurd rfl hs | exact absurd rfl hmove)

/-- What one step does: it keeps the limit, and moves the robot by its velocity for the time. -/
theorem MotionStep.spec {dt : ℝ} (h : MotionStep ofBits toBits auth w dt w')
    (hspeed : ‖w.velocity.vec‖ ≤ |w.flocking.params.maxSpeedMps|) :
    w'.flocking = w.flocking ∧ ‖w'.velocity.vec‖ ≤ |w.flocking.params.maxSpeedMps| ∧
      w'.position.vec = w.position.vec + dt • w.velocity.vec := by
  cases h with
  | outside hposition hvelocity hflocking =>
    rw [hposition, hvelocity, zero_smul, add_zero]
    exact ⟨hflocking, hspeed, rfl⟩
  | system s hs =>
    refine ⟨flocking_realTick s, ?_, ?_⟩
    · by_cases hflocking : s = .flocking
      · subst hflocking
        exact norm_flocking_le hspeed
      · rwa [velocity_realTick hflocking hs]
    · by_cases hkinematics : s = .kinematics
      · subst hkinematics
        rw [if_pos rfl]
        exact vec_kinematics _ _ _
      · rw [position_realTick hkinematics, if_neg hkinematics, zero_smul, add_zero]

/-- **No run is faster than the limit, nor gets farther than that.** -/
theorem never_outruns {ts : List ℝ} (h : Run (MotionStep ofBits toBits auth) w ts w')
    (hspeed : ‖w.velocity.vec‖ ≤ |w.flocking.params.maxSpeedMps|) :
    ‖w'.velocity.vec‖ ≤ |w.flocking.params.maxSpeedMps| ∧
      dist w.position.vec w'.position.vec ≤
        |w.flocking.params.maxSpeedMps| * (ts.map (|·|)).sum := by
  suffices hrun : w'.flocking = w.flocking ∧ ‖w'.velocity.vec‖ ≤ |w.flocking.params.maxSpeedMps| ∧
      dist w.position.vec w'.position.vec ≤
        |w.flocking.params.maxSpeedMps| * (ts.map (|·|)).sum from
    hrun.2
  induction h with
  | nil =>
    refine ⟨rfl, hspeed, ?_⟩
    rw [dist_self, List.map_nil, List.sum_nil, mul_zero]
  | @snoc ts m t m' hrun hstep ih =>
    obtain ⟨hflocking, hbefore, hdist⟩ := ih
    rw [← hflocking] at hbefore
    obtain ⟨hflocking', hafter, hmoved⟩ := hstep.spec hbefore
    rw [hflocking] at hafter hbefore
    refine ⟨hflocking'.trans hflocking, hafter, ?_⟩
    have hleg : dist m.position.vec m'.position.vec ≤ |w.flocking.params.maxSpeedMps| * |t| := by
      rw [hmoved, dist_self_add_right, norm_smul, Real.norm_eq_abs, mul_comm]
      exact mul_le_mul_of_nonneg_right hbefore (abs_nonneg t)
    calc dist w.position.vec m'.position.vec
        ≤ dist w.position.vec m.position.vec + dist m.position.vec m'.position.vec :=
          dist_triangle _ _ _
      _ ≤ |w.flocking.params.maxSpeedMps| * (ts.map (|·|)).sum +
          |w.flocking.params.maxSpeedMps| * |t| := add_le_add hdist hleg
      _ = |w.flocking.params.maxSpeedMps| * ((ts ++ [t]).map (|·|)).sum := by
          rw [List.map_append, List.sum_append, mul_add, List.map_singleton, List.sum_singleton]

/-- A tick with somebody in view. -/
theorem tick_of_seen {F : Type} [FloatScalar F] {sys : FlockingSystem F} {nt : NeighbourTable F}
    {pos : PositionComponent F} {vel : VelocityComponent F} {dt : F} {es : List (Entry F)}
    (hentries : nt.entries ≠ []) (hseen : FlockingSystem.seen sys.params nt pos = es)
    (hes : (es.foldl (FlockingSystem.consider sys.params pos) .zero).n ≠ 0) :
    sys.tick nt pos vel dt = FlockingSystem.clampSpeed sys.params
      (FlockingSystem.accelerate sys.params pos vel dt
        (es.foldl (FlockingSystem.consider sys.params pos) .zero)) := by
  unfold FlockingSystem.tick
  rw [if_neg hentries, hseen]
  exact if_neg hes

/-- Whom the robot follows, 30 m ahead. -/
noncomputable def leader : Entry ℝ :=
  letI := reals (fun _ => 0) fun _ => 0
  .ofBeacon { StateVector.empty with
    id := ⟨1, ⟨Vector.replicate 16 2⟩⟩, position := ⟨30, 0, 0⟩, velocity := ⟨4, 0, 0⟩ } 0 none

/-- A robot at 4 m/s that has just heard the leader, twenty ticks a second. -/
noncomputable def follower : World ℝ Unit :=
  letI := reals (fun _ => 0) fun _ => 0
  let world := World.init .default ⟨1, ⟨Vector.replicate 16 1⟩⟩ none [] none none ()
  { world with
    velocity := ⟨4, 0, 0⟩
    neighbourTable := { world.neighbourTable with cellSizeM := 0, entries := [leader] }
    context := { world.context with deltaTimeS := 1 / 20 } }

theorem follower_seen :
    letI := reals (fun _ => 0) fun _ => 0
    FlockingSystem.seen follower.flocking.params follower.neighbourTable follower.position
      = [leader] := by
  -- 30 m is just in view
  have hdist : (30 - 0) * (30 - 0) + (0 - 0) * (0 - 0) + (0 - 0) * (0 - 0)
      ≤ ((30 : ℕ) : ℝ) * ((30 : ℕ) : ℝ) := by norm_num
  refine (if_pos (show (0 : ℝ) < ((30 : ℕ) : ℝ) by norm_num)).trans ?_
  refine (if_pos (Or.inl (le_refl (0 : ℝ)))).trans ?_
  exact List.filter_cons_of_pos (decide_eq_true hdist)

theorem follower_accelerate :
    letI := reals (fun _ => 0) fun _ => 0
    FlockingSystem.accelerate follower.flocking.params follower.position follower.velocity (1 / 20)
      ([leader].foldl (FlockingSystem.consider follower.flocking.params follower.position) .zero)
        = ⟨11 / 2, 0, 0⟩ := by
  let _ := reals (fun _ => 0) fun _ => 0
  have hfar : ¬ ((0 : ℝ) < (0 - 30) * (0 - 30) + (0 - 0) * (0 - 0) + (0 - 0) * (0 - 0) ∧
      (0 - 30) * (0 - 30) + (0 - 0) * (0 - 0) + (0 - 0) * (0 - 0) <
        ((5 : ℕ) : ℝ) * ((5 : ℕ) : ℝ)) := by
    norm_num
  have hsums : [leader].foldl (FlockingSystem.consider follower.flocking.params follower.position)
      .zero = ⟨⟨0, 0, 0⟩, ⟨0 + 4, 0 + 0, 0 + 0⟩, ⟨0 + 30, 0 + 0, 0 + 0⟩, 1⟩ :=
    congrArg (FlockingSystem.Sums.mk · _ _ _) (if_neg hfar)
  rw [hsums]
  show VelocityComponent.mk
    ((4 : ℝ) + 1 / 20 * (((3 : ℕ) : ℝ) / ((2 : ℕ) : ℝ) * 0 +
      1 * ((0 + 4) * (1 / ((1 : ℕ) : ℝ)) - 4) + 1 * ((0 + 30) * (1 / ((1 : ℕ) : ℝ)) - 0)))
    ((0 : ℝ) + 1 / 20 * (((3 : ℕ) : ℝ) / ((2 : ℕ) : ℝ) * 0 +
      1 * ((0 + 0) * (1 / ((1 : ℕ) : ℝ)) - 0) + 1 * ((0 + 0) * (1 / ((1 : ℕ) : ℝ)) - 0)))
    ((0 : ℝ) + 1 / 20 * (((3 : ℕ) : ℝ) / ((2 : ℕ) : ℝ) * 0 +
      1 * ((0 + 0) * (1 / ((1 : ℕ) : ℝ)) - 0) + 1 * ((0 + 0) * (1 / ((1 : ℕ) : ℝ)) - 0)))
      = ⟨11 / 2, 0, 0⟩
  norm_num

/-- 5.5 m/s are cut to 5. -/
theorem follower_flocking :
    (realTick (fun _ => 0) (fun _ => 0) none .flocking follower).velocity = ⟨5, 0, 0⟩ := by
  let _ := reals (fun _ => 0) fun _ => 0
  have hfast : ((5 : ℕ) : ℝ) * ((5 : ℕ) : ℝ) < 11 / 2 * (11 / 2) + 0 * 0 + 0 * 0 ∧
      (0 : ℝ) < 11 / 2 * (11 / 2) + 0 * 0 + 0 * 0 := by norm_num
  have hspeed : √(11 / 2 * (11 / 2) + 0 * 0 + 0 * 0) = 11 / 2 := by
    rw [mul_zero, add_zero, add_zero, Real.sqrt_mul_self (by norm_num)]
  refine (tick_of_seen (List.cons_ne_nil leader []) follower_seen one_ne_zero).trans ?_
  refine (congrArg (FlockingSystem.clampSpeed _) follower_accelerate).trans ?_
  refine (if_pos hfast).trans ?_
  show VelocityComponent.mk (11 / 2 * (((5 : ℕ) : ℝ) / √(11 / 2 * (11 / 2) + 0 * 0 + 0 * 0)))
    (0 * (((5 : ℕ) : ℝ) / √(11 / 2 * (11 / 2) + 0 * 0 + 0 * 0)))
    (0 * (((5 : ℕ) : ℝ) / √(11 / 2 * (11 / 2) + 0 * 0 + 0 * 0))) = ⟨5, 0, 0⟩
  rw [hspeed]
  norm_num

/-- One tick of flocking, and one of kinematics: the robot is as fast as it may be, and gets as far
as that. -/
theorem never_outruns_follower : ∃ w : World ℝ Unit,
    Run (MotionStep (fun _ => 0) (fun _ => 0) none) follower [0, 1 / 20] w ∧
      w.velocity = ⟨5, 0, 0⟩ ∧ w.position = ⟨1 / 4, 0, 0⟩ ∧
      ‖w.velocity.vec‖ ≤ |follower.flocking.params.maxSpeedMps| ∧
      dist follower.position.vec w.position.vec ≤
        |follower.flocking.params.maxSpeedMps| * ([0, 1 / 20].map (|·|)).sum := by
  have hspeed : ‖follower.velocity.vec‖ ≤ |follower.flocking.params.maxSpeedMps| := by
    rw [VelocityComponent.norm_vec]
    show √(4 * 4 + 0 * 0 + 0 * 0) ≤ |((5 : ℕ) : ℝ)|
    rw [mul_zero, add_zero, add_zero, Real.sqrt_mul_self (by norm_num)]
    norm_num
  have hnone : Run (MotionStep (fun _ => 0) (fun _ => 0) none) follower [] follower := .nil
  have hflocking := hnone.snoc (.system .flocking (by decide))
  have hrun := hflocking.snoc (.system .kinematics (by decide))
  refine ⟨_, hrun, follower_flocking, ?_, never_outruns hrun hspeed⟩
  -- it moves by the velocity that flocking has left
  refine (congrArg (fun vel => @KinematicsSystem.tick ℝ (reals (fun _ => 0) fun _ => 0).toScalar vel
    (1 / 20) ⟨0, 0, 0⟩) follower_flocking).trans ?_
  show PositionComponent.mk (0 + 5 * (1 / 20) : ℝ) (0 + 0 * (1 / 20)) (0 + 0 * (1 / 20)) = _
  norm_num

end MithAtomas
