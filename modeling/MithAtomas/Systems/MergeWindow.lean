import MithAtomas.Comms.NeighbourTableHistory
import MithAtomas.Core.Scheduler
import MithAtomas.Core.WorldFootprint
import MithAtomas.Framework.Countdown

/-!
# The merge window over whole runs

Three components share one countdown: `World::tick` lets it decay before the systems run,
`PartitionMergeSystem` starts it anew when it sees a heal, and `TaskAllocSystem`, which runs later
in the tick because of its name, asks whether it is running. `MergeTick` is what happens of this in
a tick, and a `MergeHistory` is a world with its ticks so far.

`merge_window` says of every tick of every run that the countdown is running for `TaskAllocSystem`
exactly while the latest heal is less than the window ago, and that a switch of the role that comes
before the stability window has elapsed falls into such a time. The systems in between may do what
they like with the table.

A heal is a matter of the number of peers. The code counts them with 32 bits, so this is so as long
as the counts decide like the numbers (`CountsAgree`), which they do below 2^32 peers.
-/

namespace MithAtomas

open Countdown LinearExtension Runs

variable {F U : Type} [FloatScalar F] {N : ℕ}

/-- Systems as a world has them: `merge` and `alloc` are the shipped ones, no system of the
mission's own calls `set_merge_window_s`, and the context is constant for them. -/
structure MergeRegistration (auth : Option SignatureScheme) (systems : Fin N → System (World F U))
    (merge alloc : Fin N) : Prop where
  names : Function.Injective fun i => (descriptors systems i).name
  merge_eq : systems merge = ShippedSystem.partitionMerge.system auth
  alloc_eq : systems alloc = ShippedSystem.taskAlloc.system auth
  frame : ∀ i, (∀ s : ShippedSystem, systems i ≠ s.system auth) → ∀ w,
    ((systems i).tick w).mergeWindowRemainingS = w.mergeWindowRemainingS ∧
      ((systems i).tick w).partitionMerge = w.partitionMerge ∧
      ((systems i).tick w).taskAlloc = w.taskAlloc ∧ ((systems i).tick w).context = w.context

/-- What happens outside of the ticks: anything that leaves the countdown and the two systems
alone. -/
def OutsideMerge (w w' : World F U) : Prop :=
  w'.mergeWindowRemainingS = w.mergeWindowRemainingS ∧ w'.partitionMerge = w.partitionMerge ∧
    w'.taskAlloc = w.taskAlloc

/-- A tick: the peers that `PartitionMergeSystem` counts, whether `is_merging()` holds when
`TaskAllocSystem` asks, and whether this changes the role. -/
structure MergeTick where
  peers : ℕ
  merging : Bool
  switched : Bool
  deriving DecidableEq, Repr

/-- The number of peers has risen, and by the threshold at least. -/
def healed (threshold : UInt32) (before now : ℕ) : Bool :=
  before < now ∧ threshold.toNat ≤ now - before

/-- The heal events among the ticks with the given numbers of peers; before the first tick there
are none. -/
def healEvents (threshold : UInt32) (peers : List ℕ) : List Bool :=
  List.zipWith (healed threshold) (0 :: peers) peers

/-- The peers at the last tick. -/
def lastPeers (ticks : List MergeTick) : ℕ :=
  (ticks.map MergeTick.peers).getLastD 0

/-- Two counts of 32 bits show a heal if and only if the numbers do. -/
def CountsAgree (threshold : UInt32) (before now : ℕ) : Prop :=
  healed threshold (before % 2 ^ 32) (now % 2 ^ 32) = healed threshold before now

theorem countsAgree_of_lt (threshold : UInt32) {before now : ℕ} (hbefore : before < 2 ^ 32)
    (hnow : now < 2 ^ 32) : CountsAgree threshold before now := by
  unfold CountsAgree
  rw [Nat.mod_eq_of_lt hbefore, Nat.mod_eq_of_lt hnow]

/-- The tick with which `ticks` ends is less than the merge window after a heal. -/
def WithinMerge (params : PartitionMergeSystem.Params ℚ) (dt : ℚ) (ticks : List MergeTick) : Prop :=
  ∃ m, Latest (healEvents params.partitionHealThreshold (ticks.map MergeTick.peers)) m ∧
    ((ticks.length : ℚ) - (m + 1)) * dt < params.mergeWindowS

/-- **What the windows promise** of a tick that comes after `ticks`. The start counts as a switch
here: the ticks have the numbers from one on. -/
structure KeepsWindows (params : PartitionMergeSystem.Params ℚ) (stabilityWindowS dt : ℚ)
    (ticks : List MergeTick) (tick : MergeTick) : Prop where
  merging_iff : tick.merging = true ↔ WithinMerge params dt (ticks ++ [tick])
  early_switch : tick.switched = true →
    ∀ m, Latest (true :: ticks.map MergeTick.switched) m →
      ((ticks.length : ℚ) + 1 - m) * dt < stabilityWindowS →
      WithinMerge params dt (ticks ++ [tick])

/-- What happens in a tick whose systems run in `order` on `w`. -/
def mergeTick (systems : Fin N → System (World F U)) (merge alloc : Fin N) (order : List (Fin N))
    (w : World F U) : MergeTick :=
  let seen := seenBy systems order w alloc
  { peers := (seenBy systems order w merge).neighbourTable.entries.length
    merging := seen.isMerging
    switched := decide (seen.taskAllocTick.role ≠ seen.role) }

structure MergeHistory (F U : Type) where
  world : World F U
  ticks : List MergeTick := []

/-- A tick in `Sequential` mode, recorded. -/
def MergeHistory.tick (systems : Fin N → System (World F U)) (merge alloc : Fin N) (tickRateHz : F)
    (h : MergeHistory F U) : MergeTick × MergeHistory F U :=
  let w := h.world.advance tickRateHz
  let tick := mergeTick systems merge alloc (buildOrder (descriptors systems)) w
  (tick, ⟨tickSequential systems w, h.ticks ++ [tick]⟩)

inductive MergeStep (systems : Fin N → System (World F U)) (merge alloc : Fin N) (tickRateHz : F)
    (h : MergeHistory F U) : Option MergeTick → MergeHistory F U → Prop
  | tick : MergeStep systems merge alloc tickRateHz h
      (some (h.tick systems merge alloc tickRateHz).1) (h.tick systems merge alloc tickRateHz).2
  | outside {w : World F U} (hw : OutsideMerge h.world w) :
      MergeStep systems merge alloc tickRateHz h none { h with world := w }

/-- A world after `init`, with the two systems that have been constructed for it. -/
def MergeHistory.start (config : WorldConfig F) (identity : HierarchicalID)
    (keypair : Option IdentityKeyPair) (handlers : List MessageHandler)
    (beaconTransport messageTransport : Option Channel) (user : U)
    (mergeParams : PartitionMergeSystem.Params F) (allocParams : TaskAllocSystem.Params F) :
    MergeHistory F U where
  world := { World.init config identity keypair handlers beaconTransport messageTransport user with
    partitionMerge := { params := mergeParams }
    taskAlloc := { params := allocParams, timeSinceLastSwitchS := 0 } }

/-! ### One tick -/

omit [FloatScalar F] in
/-- The test of the code, in numbers. -/
theorem PartitionMergeSystem.heals_eq (sys : PartitionMergeSystem F) (count : UInt32) :
    sys.heals count =
      healed sys.params.partitionHealThreshold sys.lastPeerCount.toNat count.toNat := by
  unfold heals healed
  rw [Bool.decide_and]
  by_cases hrise : sys.lastPeerCount.toNat < count.toNat
  · have hlt : sys.lastPeerCount < count := UInt32.lt_iff_toNat_lt.mpr hrise
    have hsub : (count - sys.lastPeerCount).toNat = count.toNat - sys.lastPeerCount.toNat :=
      UInt32.toNat_sub_of_le _ _ (UInt32.le_iff_toNat_le.mpr hrise.le)
    simp only [gt_iff_lt, hlt, decide_true, hrise, Bool.true_and, ge_iff_le,
      UInt32.le_iff_toNat_le, hsub]
  · have hnot : ¬ sys.lastPeerCount < count := fun hlt => hrise (UInt32.lt_iff_toNat_lt.mp hlt)
    simp only [gt_iff_lt, hnot, decide_false, hrise, Bool.false_and]

omit [FloatScalar F] in
/-- A heal sets the countdown, and the peers are remembered. -/
theorem World.partitionMergeTick_eq (w : World F U) :
    w.partitionMergeTick.mergeWindowRemainingS
        = (if healed w.partitionMerge.params.partitionHealThreshold
            w.partitionMerge.lastPeerCount.toNat
            (UInt32.ofNat w.neighbourTable.entries.length).toNat then
          w.partitionMerge.params.mergeWindowS else w.mergeWindowRemainingS) ∧
      w.partitionMergeTick.partitionMerge.params = w.partitionMerge.params ∧
      w.partitionMergeTick.partitionMerge.lastPeerCount
        = UInt32.ofNat w.neighbourTable.entries.length := by
  unfold partitionMergeTick PartitionMergeSystem.tick
  simp only [PartitionMergeSystem.heals_eq]
  split
  · exact ⟨rfl, rfl, rfl⟩
  · exact ⟨rfl, rfl, rfl⟩

/-- A switch sets the stopwatch back, and comes when the gate is open. -/
theorem World.taskAllocTick_eq (w : World F U) :
    w.taskAllocTick.taskAlloc.params = w.taskAlloc.params ∧
      w.taskAllocTick.taskAlloc.timeSinceLastSwitchS
        = (if w.taskAllocTick.role ≠ w.role then 0
          else w.taskAlloc.timeSinceLastSwitchS + w.context.deltaTimeS) ∧
      (w.taskAllocTick.role ≠ w.role → w.isMerging = false →
        w.taskAlloc.params.stabilityWindowS
          ≤ w.taskAlloc.timeSinceLastSwitchS + w.context.deltaTimeS) := by
  unfold taskAllocTick TaskAllocSystem.tick
  dsimp only
  split
  · next hswitch =>
    unfold TaskAllocSystem.switches at hswitch
    simp only [Bool.and_eq_true, decide_eq_true_eq] at hswitch
    obtain ⟨⟨-, hrole⟩, hgate⟩ := hswitch
    have hchanged : (⟨(TaskAllocSystem.candidate w.taskAlloc.params w.role
        w.neighbourTable.entries).bestRole⟩ : RoleComponent) ≠ w.role :=
      fun heq => hrole (congrArg RoleComponent.role heq)
    refine ⟨rfl, (if_pos hchanged).symm, fun _ hmerging => ?_⟩
    simpa [hmerging] using hgate
  · exact ⟨rfl, (if_neg (not_not.mpr rfl)).symm, fun h => absurd rfl h⟩

namespace MergeRegistration

variable {auth : Option SignatureScheme} {systems : Fin N → System (World F U)}
  {merge alloc : Fin N}

/-- A system of another name is not `s`. -/
theorem ne_of_ne (h : MergeRegistration auth systems merge alloc) {i j : Fin N} (hij : i ≠ j)
    {s s' : ShippedSystem} (hi : systems i = s.system auth) (hj : systems j = s'.system auth) :
    s ≠ s' := by
  rintro rfl
  refine hij (h.names ?_)
  show (systems i).describe.name = (systems j).describe.name
  rw [hi, hj]

/-- Only `PartitionMergeSystem` starts the countdown anew. -/
theorem merge_frame (h : MergeRegistration auth systems merge alloc) {i : Fin N} (hi : i ≠ merge)
    (w : World F U) :
    (((systems i).tick w).mergeWindowRemainingS, ((systems i).tick w).partitionMerge)
      = (w.mergeWindowRemainingS, w.partitionMerge) := by
  by_cases hshipped : ∃ s : ShippedSystem, systems i = s.system auth
  · obtain ⟨s, hs⟩ := hshipped
    have hne : s ≠ .partitionMerge := h.ne_of_ne hi hs h.merge_eq
    have hcells : Cell.mergeWindowRemainingS ∉ s.touchesWrites ∧
        Cell.partitionMerge ∉ s.touchesWrites := by
      cases s with
      | partitionMerge => exact absurd rfl hne
      | _ => decide
    have hwindow : (s.tick auth w).mergeWindowRemainingS = w.mergeWindowRemainingS :=
      s.tick_frame w hcells.1
    have hsys : (s.tick auth w).partitionMerge = w.partitionMerge := s.tick_frame w hcells.2
    rw [hs]
    exact Prod.ext hwindow hsys
  · obtain ⟨hwindow, hsys, -⟩ := h.frame i (fun s hs => hshipped ⟨s, hs⟩) w
    exact Prod.ext hwindow hsys

/-- Nobody else writes what `TaskAllocSystem` keeps. -/
theorem alloc_frame (h : MergeRegistration auth systems merge alloc) {i : Fin N} (hi : i ≠ alloc)
    (w : World F U) : ((systems i).tick w).taskAlloc = w.taskAlloc := by
  by_cases hshipped : ∃ s : ShippedSystem, systems i = s.system auth
  · obtain ⟨s, hs⟩ := hshipped
    have hne : s ≠ .taskAlloc := h.ne_of_ne hi hs h.alloc_eq
    have hcell : Cell.taskAlloc ∉ s.touchesWrites := by
      cases s with
      | taskAlloc => exact absurd rfl hne
      | _ => decide
    have hsys : (s.tick auth w).taskAlloc = w.taskAlloc := s.tick_frame w hcell
    rw [hs]
    exact hsys
  · exact (h.frame i (fun s hs => hshipped ⟨s, hs⟩) w).2.2.1

/-- The context is the same for all systems of a tick. -/
theorem context_frame (h : MergeRegistration auth systems merge alloc) (i : Fin N)
    (w : World F U) : ((systems i).tick w).context = w.context := by
  by_cases hshipped : ∃ s : ShippedSystem, systems i = s.system auth
  · obtain ⟨s, hs⟩ := hshipped
    have hkeep : (s.tick auth w).context = w.context :=
      s.tick_frame w (show Cell.context ∉ s.touchesWrites by cases s <;> decide)
    rw [hs]
    exact hkeep
  · exact (h.frame i (fun s hs => hshipped ⟨s, hs⟩) w).2.2.2

/-- `"PartitionMergeSystem" < "TaskAllocSystem"`. -/
theorem mem_before (h : MergeRegistration auth systems merge alloc) :
    merge ∈ before (buildOrder (descriptors systems)) alloc := by
  have hlt : (descriptors systems merge).name < (descriptors systems alloc).name := by
    show (systems merge).describe.name < (systems alloc).describe.name
    rw [h.merge_eq, h.alloc_eq]
    show ShippedSystem.partitionMerge.describe.name < ShippedSystem.taskAlloc.describe.name
    decide
  have hne : merge ≠ alloc := by
    rintro heq
    rw [heq] at hlt
    exact lt_irrefl _ hlt
  have horder : LinearExtends
      (fun a b => (descriptors systems a).name < (descriptors systems b).name)
      (buildOrder (descriptors systems)) :=
    (pairwise_buildOrder h.names).imp fun hab => lt_asymm hab
  exact mem_before_of_linearExtends horder (mem_buildOrder _ _) (mem_buildOrder _ _) hne hlt

/-- What `TaskAllocSystem` sees of the countdown, and what is left of it at the end of the tick, is
what `PartitionMergeSystem` has made of it. -/
theorem merge_views (h : MergeRegistration auth systems merge alloc) (w : World F U) :
    let view := fun w : World F U => (w.mergeWindowRemainingS, w.partitionMerge)
    let order := buildOrder (descriptors systems)
    view (seenBy systems order w merge) = view w ∧
      view (seenBy systems order w alloc)
        = view (seenBy systems order w merge).partitionMergeTick ∧
      view (tickSequential systems w) = view (seenBy systems order w merge).partitionMergeTick := by
  intro view order
  have htick : (systems merge).tick = World.partitionMergeTick := by
    rw [h.merge_eq]
    rfl
  have hframe : ∀ i ∈ order, i ≠ merge → ∀ w, view ((systems i).tick w) = view w :=
    fun i _ hi w => h.merge_frame hi w
  refine ⟨?_, ?_, ?_⟩
  · refine execute_frame (π := view) ?_ w
    intro i hi w
    refine h.merge_frame ?_ w
    rintro rfl
    exact notMem_before _ _ hi
  · rw [← htick]
    exact execute_before_view (π := view) (nodup_buildOrder _) h.mem_before hframe w
  · rw [← htick]
    exact execute_view (π := view) (nodup_buildOrder _) (mem_buildOrder _ _) hframe w

theorem alloc_views (h : MergeRegistration auth systems merge alloc) (w : World F U) :
    let order := buildOrder (descriptors systems)
    (seenBy systems order w alloc).taskAlloc = w.taskAlloc ∧
      (seenBy systems order w alloc).context = w.context ∧
      (tickSequential systems w).taskAlloc
        = (seenBy systems order w alloc).taskAllocTick.taskAlloc := by
  intro order
  have htick : (systems alloc).tick = World.taskAllocTick := by
    rw [h.alloc_eq]
    rfl
  refine ⟨?_, ?_, ?_⟩
  · refine execute_frame (π := fun w : World F U => w.taskAlloc) ?_ w
    intro i hi w
    refine h.alloc_frame ?_ w
    rintro rfl
    exact notMem_before _ _ hi
  · exact execute_frame (π := fun w : World F U => w.context) (fun i _ w => h.context_frame i w) w
  · rw [← htick]
    exact execute_view (π := fun w : World F U => w.taskAlloc) (nodup_buildOrder _)
      (mem_buildOrder _ _) (fun i _ hi w => h.alloc_frame hi w) w

end MergeRegistration

/-! ### Runs -/

theorem healEvents_concat (threshold : UInt32) (peers : List ℕ) (now : ℕ) :
    healEvents threshold (peers ++ [now])
      = healEvents threshold peers ++ [healed threshold (peers.getLastD 0) now] := by
  have hshift : ∀ before, List.zipWith (healed threshold) (before :: (peers ++ [now]))
    (peers ++ [now])
      = List.zipWith (healed threshold) (before :: peers) peers
        ++ [healed threshold (peers.getLastD before) now] := by
    induction peers with
    | nil => exact fun before => rfl
    | cons first peers ih =>
      intro before
      rw [List.cons_append, List.zipWith_cons_cons, ih first, List.zipWith_cons_cons,
        List.cons_append, List.getLastD_cons]
  exact hshift 0

theorem length_healEvents (threshold : UInt32) (peers : List ℕ) :
    (healEvents threshold peers).length = peers.length := by
  simp [healEvents]

section Runs

variable {auth : Option SignatureScheme} {systems : Fin N → System (World ℚ U)}
  {merge alloc : Fin N} {tickRateHz : ℚ} {mergeParams : PartitionMergeSystem.Params ℚ}
  {allocParams : TaskAllocSystem.Params ℚ} {h h' : MergeHistory ℚ U} {e : Option MergeTick}

/-- The clocks of the world show what its ticks say. -/
structure MergeInv (mergeParams : PartitionMergeSystem.Params ℚ)
    (allocParams : TaskAllocSystem.Params ℚ) (dt : ℚ) (h : MergeHistory ℚ U) : Prop where
  mergeParams_eq : h.world.partitionMerge.params = mergeParams
  allocParams_eq : h.world.taskAlloc.params = allocParams
  lastPeerCount : h.world.partitionMerge.lastPeerCount = UInt32.ofNat (lastPeers h.ticks)
  window : h.world.mergeWindowRemainingS = remaining mergeParams.mergeWindowS dt
    (healEvents mergeParams.partitionHealThreshold (h.ticks.map MergeTick.peers))
  stopwatch : h.world.taskAlloc.timeSinceLastSwitchS
    = elapsed dt (true :: h.ticks.map MergeTick.switched)

/-- The counts of this step show a heal if and only if the numbers of peers do. -/
def StepAgrees (threshold : UInt32) (h : MergeHistory ℚ U) (e : Option MergeTick) : Prop :=
  ∀ tick, e = some tick → CountsAgree threshold (lastPeers h.ticks) tick.peers

/-- The countdown in the next tick: it decays first, and then `PartitionMergeSystem` runs. -/
theorem MergeInv.window_tick (hinv : MergeInv mergeParams allocParams (1 / tickRateHz) h)
    (hreg : MergeRegistration auth systems merge alloc)
    (hagree : StepAgrees mergeParams.partitionHealThreshold h
      (some (h.tick systems merge alloc tickRateHz).1)) :
    let w := h.world.advance tickRateHz
    let seen := seenBy systems (buildOrder (descriptors systems)) w merge
    let ticks := h.ticks ++ [(h.tick systems merge alloc tickRateHz).1]
    seen.partitionMergeTick.mergeWindowRemainingS
        = remaining mergeParams.mergeWindowS (1 / tickRateHz)
          (healEvents mergeParams.partitionHealThreshold (ticks.map MergeTick.peers)) ∧
      seen.partitionMergeTick.partitionMerge.params = mergeParams ∧
      seen.partitionMergeTick.partitionMerge.lastPeerCount = UInt32.ofNat (lastPeers ticks) := by
  intro w seen ticks
  obtain ⟨hseen, -, -⟩ := hreg.merge_views w
  obtain ⟨hwindow, hsys⟩ := Prod.mk.inj hseen
  obtain ⟨hnew, hparams, hlast⟩ := seen.partitionMergeTick_eq
  -- the window has decayed at the start of the tick
  have hdecay : w.mergeWindowRemainingS
      = decay (1 / tickRateHz) h.world.mergeWindowRemainingS := rfl
  have hpeers : ticks.map MergeTick.peers
      = h.ticks.map MergeTick.peers ++ [seen.neighbourTable.entries.length] := by
    rw [List.map_append]
    rfl
  have hcount : seen.partitionMerge.lastPeerCount = UInt32.ofNat (lastPeers h.ticks) :=
    (congrArg PartitionMergeSystem.lastPeerCount hsys).trans hinv.lastPeerCount
  have hmerge : seen.partitionMerge.params = mergeParams :=
    (congrArg PartitionMergeSystem.params hsys).trans hinv.mergeParams_eq
  -- the test of the counts decides like the numbers
  have hheal : healed mergeParams.partitionHealThreshold (UInt32.ofNat (lastPeers h.ticks)).toNat
      (UInt32.ofNat seen.neighbourTable.entries.length).toNat
        = healed mergeParams.partitionHealThreshold (lastPeers h.ticks)
          seen.neighbourTable.entries.length := by
    rw [UInt32.toNat_ofNat', UInt32.toNat_ofNat']
    exact hagree _ rfl
  refine ⟨?_, hparams.trans hmerge, ?_⟩
  · rw [hnew, hmerge, hcount, hheal, hpeers, healEvents_concat, remaining_concat, hwindow, hdecay,
      hinv.window]
    rfl
  · rw [hlast]
    unfold lastPeers
    rw [hpeers, List.getLastD_concat]

/-- **Every tick keeps the windows.** -/
theorem MergeInv.keepsWindows (hinv : MergeInv mergeParams allocParams (1 / tickRateHz) h)
    (hreg : MergeRegistration auth systems merge alloc) (hW : 0 < mergeParams.mergeWindowS)
    (hagree : StepAgrees mergeParams.partitionHealThreshold h
      (some (h.tick systems merge alloc tickRateHz).1)) :
    KeepsWindows mergeParams allocParams.stabilityWindowS (1 / tickRateHz) h.ticks
      (h.tick systems merge alloc tickRateHz).1 := by
  set w := h.world.advance tickRateHz with hw
  set seen := seenBy systems (buildOrder (descriptors systems)) w alloc with hseen
  obtain ⟨hwindow, -, -⟩ := hinv.window_tick hreg hagree
  obtain ⟨-, hview, -⟩ := hreg.merge_views w
  obtain ⟨hsys, hcontext, -⟩ := hreg.alloc_views w
  -- the window is what `PartitionMergeSystem` has left of it this tick
  have hmerging : seen.isMerging = true ↔ WithinMerge mergeParams (1 / tickRateHz)
      (h.ticks ++ [(h.tick systems merge alloc tickRateHz).1]) := by
    unfold World.isMerging
    rw [decide_eq_true_iff, (Prod.mk.inj hview).1, hwindow, remaining_pos_iff hW, length_healEvents,
      List.length_map]
    rfl
  refine ⟨hmerging, ?_⟩
  intro hswitched m hm hearly
  by_contra hnot
  have hclosed : seen.isMerging = false := by
    rw [Bool.eq_false_iff]
    exact fun hopen => hnot (hmerging.mp hopen)
  -- outside the window a switch has waited for the stability window
  have hrole : seen.taskAllocTick.role ≠ seen.role := of_decide_eq_true hswitched
  have hgate := seen.taskAllocTick_eq.2.2 hrole hclosed
  have hdt : w.context.deltaTimeS = 1 / tickRateHz := rfl
  have hold : w.taskAlloc = h.world.taskAlloc := rfl
  rw [hsys, hcontext, hdt, hold, hinv.allocParams_eq, hinv.stopwatch, elapsed_eq _ hm,
    List.length_cons, List.length_map] at hgate
  refine absurd hearly (not_lt.mpr ?_)
  calc allocParams.stabilityWindowS
      ≤ (((h.ticks.length + 1 : ℕ) : ℚ) - (m + 1)) * (1 / tickRateHz) + 1 / tickRateHz := hgate
    _ = ((h.ticks.length : ℚ) + 1 - m) * (1 / tickRateHz) := by
        push_cast
        ring

/-- Every step keeps the clocks. -/
theorem MergeInv.step (hinv : MergeInv mergeParams allocParams (1 / tickRateHz) h)
    (hreg : MergeRegistration auth systems merge alloc)
    (hagree : StepAgrees mergeParams.partitionHealThreshold h e)
    (hst : MergeStep systems merge alloc tickRateHz h e h') :
    MergeInv mergeParams allocParams (1 / tickRateHz) h' := by
  cases hst with
  | tick =>
    obtain ⟨hwindow, hparams, hlast⟩ := hinv.window_tick hreg hagree
    obtain ⟨-, -, hview⟩ := hreg.merge_views (h.world.advance tickRateHz)
    obtain ⟨hsys, hcontext, halloc⟩ := hreg.alloc_views (h.world.advance tickRateHz)
    obtain ⟨hsame, htime, -⟩ := (seenBy systems (buildOrder (descriptors systems))
      (h.world.advance tickRateHz) alloc).taskAllocTick_eq
    obtain ⟨hwindow', hsys'⟩ := Prod.mk.inj hview
    refine
      { mergeParams_eq := (congrArg PartitionMergeSystem.params hsys').trans hparams
        allocParams_eq := ?_
        lastPeerCount := (congrArg PartitionMergeSystem.lastPeerCount hsys').trans hlast
        window := hwindow'.trans hwindow
        stopwatch := ?_ }
    · calc (tickSequential systems (h.world.advance tickRateHz)).taskAlloc.params
          = h.world.taskAlloc.params := by rw [halloc, hsame, hsys]; rfl
        _ = allocParams := hinv.allocParams_eq
    · -- the stopwatch has run for one more tick, or has been reset by a switch
      have hswitched :
        (true :: (h.tick systems merge alloc tickRateHz).2.ticks.map MergeTick.switched)
          = (true :: h.ticks.map MergeTick.switched)
            ++ [(h.tick systems merge alloc tickRateHz).1.switched] := by
        simp [MergeHistory.tick]
      have hold : (h.world.advance tickRateHz).taskAlloc = h.world.taskAlloc := rfl
      have hdt : (h.world.advance tickRateHz).context.deltaTimeS = 1 / tickRateHz := rfl
      rw [hswitched, elapsed_concat, ← hinv.stopwatch]
      show (tickSequential systems (h.world.advance tickRateHz)).taskAlloc.timeSinceLastSwitchS = _
      rw [halloc, htime, hsys, hcontext, hdt, hold]
      simp [MergeHistory.tick, mergeTick]
  | outside hw =>
    obtain ⟨hwindow, hmerge, halloc⟩ := hw
    exact
      { mergeParams_eq := by rw [hmerge]; exact hinv.mergeParams_eq
        allocParams_eq := by rw [halloc]; exact hinv.allocParams_eq
        lastPeerCount := by rw [hmerge]; exact hinv.lastPeerCount
        window := hwindow.trans hinv.window
        stopwatch := by rw [halloc]; exact hinv.stopwatch }

/-- **The merge window.** In every run whose counts agree with the numbers of peers,
`TaskAllocSystem` finds `is_merging()` exactly when the latest heal is less than the merge window
ago, and every switch that comes less than the stability window after the one before, or after the
start, comes at such a time. -/
theorem merge_window (hreg : MergeRegistration auth systems merge alloc) (tickRateHz : ℚ)
    (mergeParams : PartitionMergeSystem.Params ℚ) (hW : 0 < mergeParams.mergeWindowS)
    (allocParams : TaskAllocSystem.Params ℚ) (config : WorldConfig ℚ) (identity : HierarchicalID)
    (keypair : Option IdentityKeyPair) (handlers : List MessageHandler)
    (beaconTransport messageTransport : Option Channel) (user : U) {es : List (Option MergeTick)}
    {h : MergeHistory ℚ U}
    (hrun : Run (fun h e h' => StepAgrees mergeParams.partitionHealThreshold h e ∧
        MergeStep systems merge alloc tickRateHz h e h')
      (.start config identity keypair handlers beaconTransport messageTransport user mergeParams
        allocParams) es h) :
    Run (fun h e h' => MergeStep systems merge alloc tickRateHz h e h' ∧ ∀ tick, e = some tick →
        h'.ticks = h.ticks ++ [tick] ∧
        KeepsWindows mergeParams allocParams.stabilityWindowS (1 / tickRateHz) h.ticks tick)
      (.start config identity keypair handlers beaconTransport messageTransport user mergeParams
        allocParams) es h := by
  have hstrong := hrun.strengthen
    (I := MergeInv mergeParams allocParams (1 / tickRateHz))
    (P := fun h e h' => ∀ tick, e = some tick → h'.ticks = h.ticks ++ [tick] ∧
      KeepsWindows mergeParams allocParams.stabilityWindowS (1 / tickRateHz) h.ticks tick)
    (fun _ _ _ hinv hst => hinv.step hreg hst.1 hst.2) ?_ ⟨rfl, rfl, rfl, rfl, ?_⟩
  · exact hstrong.mono fun _ _ _ hst => ⟨hst.1.2, hst.2⟩
  · rintro h e h' hinv ⟨hagree, hst⟩ tick rfl
    cases hst with
    | tick => exact ⟨rfl, hinv.keepsWindows hreg hW hagree⟩
  · show (0 : ℚ) = _
    simp [elapsed, MergeHistory.start]

end Runs

section Examples

/-- The two systems alone. -/
def mergingPair : Fin 2 → System (World ℚ Unit) :=
  ![ShippedSystem.partitionMerge.system none, ShippedSystem.taskAlloc.system none]

theorem mergingPair_registration : MergeRegistration none mergingPair 0 1 where
  names := by decide
  merge_eq := rfl
  alloc_eq := rfl
  frame := by
    intro i hi w
    fin_cases i
    · exact absurd rfl (hi .partitionMerge)
    · exact absurd rfl (hi .taskAlloc)

/-- Half of the swarm is to have role 1; the role is kept for a second. -/
def halfParams : TaskAllocSystem.Params ℚ :=
  { TaskAllocSystem.Params.default with
    desiredRatios := #v[0, 1 / 2, 0, 0, 0, 0, 0, 0]
    thresholds := Vector.replicate 8 (1 / 2) }

/-- Two peers appear, and the robot changes its role in its first tick. -/
theorem mergingPair_heals :
    ∃ es h, Run (fun h e h' => MergeStep mergingPair 0 1 20 h e h' ∧ ∀ tick, e = some tick →
        h'.ticks = h.ticks ++ [tick] ∧ KeepsWindows .default 1 (1 / 20) h.ticks tick)
      (MergeHistory.start .default {} none [] none none () .default halfParams) es h ∧
      h.ticks = [⟨2, true, true⟩] := by
  let start : MergeHistory ℚ Unit := .start .default {} none [] none none () .default halfParams
  let met : World ℚ Unit := { start.world with
    neighbourTable := (NeighbourTable.empty.upsert { StateVector.empty with id := ⟨1, .nil⟩ } 0
      none).upsert { StateVector.empty with id := ⟨2, .nil⟩ } 0 none }
  let ticked := MergeHistory.tick mergingPair 0 1 20 { start with world := met }
  have hmet : OutsideMerge start.world met := ⟨rfl, rfl, rfl⟩
  have hticks : ticked.2.ticks = [⟨2, true, true⟩] := by decide +kernel
  have hpeers : ticked.1.peers = 2 := by decide +kernel
  have hagree : StepAgrees 2 { start with world := met } (some ticked.1) := by
    rintro tick ⟨⟩
    rw [hpeers]
    exact countsAgree_of_lt 2 (by decide) (by decide)
  have hrun : Run (fun h e h' => StepAgrees 2 h e ∧ MergeStep mergingPair 0 1 20 h e h') start
      [none, some ticked.1] ticked.2 :=
    (Run.single ⟨nofun, .outside hmet⟩).snoc ⟨hagree, .tick⟩
  have hkeeps := merge_window mergingPair_registration 20 .default (by decide +kernel) halfParams
    .default {} none [] none none () hrun
  exact ⟨_, _, hkeeps, hticks⟩

/-- A world that has heard 2^32 peers since it started. -/
def crowdedStart : MergeHistory ℚ Unit :=
  let start : MergeHistory ℚ Unit := .start .default {} none [] none none () .default halfParams
  { start with world := { start.world with neighbourTable := crowdedTable .empty (2 ^ 32) } }

/-- 2^32 peers appear at once, and are counted as none. -/
theorem crowd_not_a_heal :
    ∃ h tick h', Run (MergeStep mergingPair 0 1 20)
        (MergeHistory.start .default {} none [] none none () .default halfParams) [none] h ∧
      MergeStep mergingPair 0 1 20 h (some tick) h' ∧ tick.peers = 2 ^ 32 ∧ tick.merging = false ∧
      WithinMerge .default (1 / 20) (h.ticks ++ [tick]) ∧
      ¬ KeepsWindows .default 1 (1 / 20) h.ticks tick := by
  have hlength : (crowdedTable .empty (2 ^ 32)).entries.length = 2 ^ 32 :=
    length_crowdedTable .empty (Nat.pow_le_pow_right (by decide) (by decide))
  have hfirst : LinearExtension.before (buildOrder (descriptors mergingPair)) 0 = [] := by decide
  have hseen : ∀ w, seenBy mergingPair (buildOrder (descriptors mergingPair)) w 0 = w := by
    intro w
    unfold seenBy
    rw [hfirst]
    rfl
  set ticked := MergeHistory.tick mergingPair 0 1 20 crowdedStart with hticked
  have hpeers : ticked.1.peers = 2 ^ 32 := by
    show (seenBy mergingPair _ _ 0).neighbourTable.entries.length = 2 ^ 32
    rw [hseen]
    exact hlength
  -- the count is zero, as before, and so the window stays shut
  have hmerging : ticked.1.merging = false := by
    obtain ⟨-, hview, -⟩ := mergingPair_registration.merge_views (crowdedStart.world.advance 20)
    have hwindow := (Prod.mk.inj hview).1
    rw [hseen] at hwindow
    have hshut := hwindow.trans (World.partitionMergeTick_eq _).1
    have hcount : (UInt32.ofNat (crowdedTable .empty (2 ^ 32)).entries.length).toNat = 0 := by
      rw [hlength]
      decide
    have hnot : healed 2 0 (UInt32.ofNat (crowdedTable .empty (2 ^ 32)).entries.length).toNat
        = false := by
      rw [hcount]
      rfl
    have hstays : (if healed 2 0
          (UInt32.ofNat (crowdedTable .empty (2 ^ 32)).entries.length).toNat = true
        then (2 : ℚ) else decay (1 / 20) 0) = 0 := by
      rw [hnot]
      norm_num [decay]
    have hzero := hshut.trans hstays
    show decide (0 < (seenBy mergingPair _ _ 1).mergeWindowRemainingS) = false
    rw [hzero]
    decide
  have hwithin : WithinMerge .default (1 / 20) (crowdedStart.ticks ++ [ticked.1]) := by
    refine ⟨0, ?_, ?_⟩
    · show Latest [healed 2 0 ticked.1.peers] 0
      rw [hpeers]
      exact latest_concat_true []
    · show (((0 : ℕ) + 1 : ℕ) - ((0 : ℕ) + 1) : ℚ) * (1 / 20) < 2
      norm_num
  refine ⟨crowdedStart, ticked.1, ticked.2, .single (.outside ⟨rfl, rfl, rfl⟩), .tick, hpeers,
    hmerging, hwithin, fun hkeeps => ?_⟩
  rw [hkeeps.merging_iff.mpr hwithin] at hmerging
  cases hmerging

end Examples

end MithAtomas
