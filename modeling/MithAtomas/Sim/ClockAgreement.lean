import MithAtomas.Core.BeaconTick
import MithAtomas.Core.WorldFootprint
import MithAtomas.Sim.Lockstep
import MithAtomas.Sim.SimInbox

/-!
# Clocks that agree

A beacon is stamped with the sender's clock when it is sent, and `ClockSyncSystem` compares the
stamp with the reader's clock when it ticks. Between worlds whose clocks agree, the gap to a beacon
of an earlier step is therefore negative, by the beacon's age: from a world that ticks later in a
step, from the last beacon of a period, from a peer that has fallen silent.

`ClockStep` is a simulation as far as the clocks are concerned. `agreement_stable` says that the
offsets stay as they are in every run in which `ClockSyncSystem` meets current stamps only
(`MeetsCurrent`), and that they do not in any other run that begins without stamps from the future.
-/

namespace MithAtomas

open Runs

variable {U : Type}

/-! ### One tick of `ClockSyncSystem` -/

namespace ClockSyncSystem

variable {sys : ClockSyncSystem ℚ} {entries : List (Entry ℚ)} {mySync : ℚ}

/-- The gaps, added up one by one. -/
theorem foldl_gaps (entries : List (Entry ℚ)) (mySync : ℚ) :
    entries.foldl (fun sum it => sum + (it.syncTimeS - mySync)) 0
      = (entries.map fun it => it.syncTimeS - mySync).sum := by
  rw [List.sum_eq_foldl, List.foldl_map]

/-- Stamps that are current change nothing. -/
theorem tick_of_current (h : ∀ e ∈ entries, e.syncTimeS = mySync) (clockOffsetS : ℚ) :
    (sys.tick entries mySync clockOffsetS).2 = clockOffsetS := by
  have hsum : (entries.map fun it => it.syncTimeS - mySync).sum = 0 := by
    refine List.sum_eq_zero fun gap hgap => ?_
    obtain ⟨e, he, rfl⟩ := List.mem_map.mp hgap
    exact sub_eq_zero.mpr (h e he)
  have hstep : step sys.params entries (UInt32.ofNat entries.length) mySync = 0 := by
    unfold step
    simp only [foldl_gaps, hsum, zero_div, mul_zero]
    split
    · next hmax =>
      unfold clamp
      rw [if_neg (by linarith), if_neg (by linarith)]
    · rfl
  rw [tick_snd]
  unfold correction
  simp only [hstep]
  split
  · rfl
  · rw [if_neg (by show ¬ (0 : ℚ) < |0|; simp)]
    rfl

/-- **Stamps that are behind pull the clock back**, if they are counted. -/
theorem tick_of_behind (sys : ClockSyncSystem ℚ) (hrate : 0 < sys.params.adjustmentRate)
    (hcount : UInt32.ofNat entries.length ≠ 0) (hle : ∀ e ∈ entries, e.syncTimeS ≤ mySync)
    (hlt : ∃ e ∈ entries, e.syncTimeS < mySync) (clockOffsetS : ℚ) :
    (sys.tick entries mySync clockOffsetS).2 < clockOffsetS := by
  have hsum : (entries.map fun it => it.syncTimeS - mySync).sum < 0 := by
    have hneg := List.sum_lt_sum (l := entries) (fun it => it.syncTimeS - mySync) (fun _ => 0)
      (fun e he => sub_nonpos.mpr (hle e he))
      (hlt.imp fun e he => ⟨he.1, sub_neg.mpr he.2⟩)
    simpa using hneg
  have hn : 0 < (((UInt32.ofNat entries.length).toNat : ℕ) : ℚ) := by
    have hne : (UInt32.ofNat entries.length).toNat ≠ 0 :=
      fun h => hcount (UInt32.toNat_inj.mp h)
    exact_mod_cast Nat.pos_of_ne_zero hne
  have hgap : sys.params.adjustmentRate * ((entries.map fun it => it.syncTimeS - mySync).sum
      / (((UInt32.ofNat entries.length).toNat : ℕ) : ℚ)) < 0 :=
    mul_neg_of_pos_of_neg hrate (div_neg_of_neg_of_pos hsum hn)
  -- the cap keeps the sign of the step
  have hstep : step sys.params entries (UInt32.ofNat entries.length) mySync < 0 := by
    unfold step
    simp only [foldl_gaps]
    split
    · next hmax =>
      unfold clamp
      split
      · linarith
      · rw [if_neg (by linarith)]
        exact hgap
    · exact hgap
  have habs : 0 < Scalar.abs (step sys.params entries (UInt32.ofNat entries.length) mySync) :=
    abs_pos.mpr hstep.ne
  rw [tick_snd]
  unfold correction
  simp only [not_le.mpr hrate, hcount, or_self, if_false, habs, if_true, Option.map_some,
    Option.getD_some]
  linarith

theorem params_tick (sys : ClockSyncSystem ℚ) (entries : List (Entry ℚ))
    (mySync clockOffsetS : ℚ) : (sys.tick entries mySync clockOffsetS).1.params = sys.params := by
  unfold tick
  split
  · rfl
  · dsimp only
    split
    · rfl
    · split <;> rfl

end ClockSyncSystem

/-! ### The swarm -/

/-- The worlds agree on what the clocks work with. -/
structure World.SameClock (w w' : World ℚ U) : Prop where
  context : w'.context = w.context
  clockOffsetS : w'.clockOffsetS = w.clockOffsetS
  neighbourTable : w'.neighbourTable = w.neighbourTable
  params : w'.clockSync.params = w.clockSync.params

theorem World.SameClock.refl (w : World ℚ U) : w.SameClock w :=
  ⟨rfl, rfl, rfl, rfl⟩

variable (U) in
/-- A simulation: `next` worlds have ticked in the present step, and `heard` says that the next one
has run `BeaconSystem` already. -/
structure ClockSwarm where
  net : SimNetwork ℚ U
  next : ℕ
  heard : Bool

inductive ClockEvent where
  /-- a step of `advance` begins -/
  | beginStep
  /-- the next world ticks, as far as `BeaconSystem` -/
  | beacons
  /-- `ClockSyncSystem` of this world -/
  | clockSync
  /-- the mission of world `i`, or one of its other systems, sends -/
  | send (i : ℕ) (m : Message ℚ)
  /-- the mission of world `i`, or one of its other systems -/
  | other (i : ℕ)

inductive ClockStep (auth : Option SignatureScheme) (tickRateHz : ℚ) (s : ClockSwarm U) :
    ClockEvent → ClockSwarm U → Prop
  | beginStep (hbetween : s.next = s.net.worlds.length) :
      ClockStep auth tickRateHz s .beginStep ⟨s.net.rebuildGrid, 0, false⟩
  | beacons {w w' : World ℚ U} (hw : s.net.worlds[s.next]? = some w) (hheard : s.heard = false)
      (hsame : (w.advance tickRateHz).SameClock w') :
      ClockStep auth tickRateHz s .beacons ⟨s.net.beaconTick auth s.next w', s.next, true⟩
  | clockSync {w : World ℚ U} (hw : s.net.worlds[s.next]? = some w) (hheard : s.heard = true) :
      ClockStep auth tickRateHz s .clockSync
        ⟨s.net.systemTick auth s.next w .clockSync, s.next + 1, false⟩
  | send (i : ℕ) (m : Message ℚ) :
      ClockStep auth tickRateHz s (.send i m) { s with net := s.net.sendAll i [.message m] }
  | other {i : ℕ} {w w' : World ℚ U} (hw : s.net.worlds[i]? = some w) (hsame : w.SameClock w') :
      ClockStep auth tickRateHz s (.other i) { s with net := s.net.setWorld i w' }

namespace ClockSwarm

variable (s : ClockSwarm U)

/-- The offsets are all `c`. -/
def Offsets (c : ℚ) : Prop :=
  ∀ w ∈ s.net.worlds, w.clockOffsetS = c

/-- **The condition.** The entries that `ClockSyncSystem` is about to read, if it counts any, are
stamped with the present time. -/
def MeetsCurrent : ClockEvent → Prop
  | .clockSync => ∀ w, s.net.worlds[s.next]? = some w →
      UInt32.ofNat w.neighbourTable.entries.length = 0 ∨
        ∀ e ∈ w.neighbourTable.entries, e.syncTimeS = w.syncedTimeS
  | _ => True

/-- Between two steps, all worlds show the same time, and the same offset. -/
structure Agrees (elapsedTimeS c : ℚ) : Prop where
  between : s.next = s.net.worlds.length
  unheard : s.heard = false
  elapsed : ∀ w ∈ s.net.worlds, w.context.elapsedTimeS = elapsedTimeS
  offsets : s.Offsets c
  rate : ∀ w ∈ s.net.worlds, 0 < w.clockSync.params.adjustmentRate

/-- No stamp that is held or under way is later than `t`. -/
structure StampedUntil (t : ℚ) : Prop where
  table : ∀ w ∈ s.net.worlds, ∀ e ∈ w.neighbourTable.entries, e.syncTimeS ≤ t
  inbox : ∀ k, ∀ sv ∈ s.net.bus.inbox k, sv.syncTimeS ≤ t

end ClockSwarm

/-! ### What the events do to the worlds -/

/-- What a tick of `BeaconSystem` leaves alone. -/
theorem World.clock_beaconTick (auth : Option SignatureScheme) (w : World ℚ U) :
    (w.beaconTick auth).context = w.context ∧ (w.beaconTick auth).clockOffsetS = w.clockOffsetS ∧
      (w.beaconTick auth).clockSync = w.clockSync := by
  have hcontext : (ShippedSystem.beacon.tick auth w).context = w.context :=
    ShippedSystem.beacon.tick_frame w (show Cell.context ∉ _ by decide)
  have hoffset : (ShippedSystem.beacon.tick auth w).clockOffsetS = w.clockOffsetS :=
    ShippedSystem.beacon.tick_frame w (show Cell.clockOffsetS ∉ _ by decide)
  have hsync : (ShippedSystem.beacon.tick auth w).clockSync = w.clockSync :=
    ShippedSystem.beacon.tick_frame w (show Cell.clockSync ∉ _ by decide)
  exact ⟨hcontext, hoffset, hsync⟩

/-- A signature does not change the stamp. -/
theorem StateVector.syncTimeS_signed {F : Type} [FloatScalar F] (auth : Option SignatureScheme)
    (keypair : Option IdentityKeyPair) (sv : StateVector F) :
    (sv.signed auth keypair).syncTimeS = sv.syncTimeS := by
  unfold signed
  split <;> rfl

/-- What is said of all worlds is still true when one of them changes. -/
theorem forall_mem_set {P : World ℚ U → Prop} {worlds : List (World ℚ U)} {i : ℕ} {w : World ℚ U}
    (h : ∀ w ∈ worlds, P w) (hw : P w) : ∀ w' ∈ worlds.set i w, P w' := by
  intro w' hw'
  rcases List.mem_or_eq_of_mem_set hw' with hold | rfl
  · exact h w' hold
  · exact hw

section Steps

variable {auth : Option SignatureScheme} {tickRateHz c : ℚ} {s s' : ClockSwarm U} {e : ClockEvent}

/-- `ClockSyncSystem` on current stamps, and what else happens, leaves the offsets alone. -/
theorem ClockStep.offsets (hst : ClockStep auth tickRateHz s e s') (h : s.Offsets c)
    (hcurrent : s.MeetsCurrent e) : s'.Offsets c := by
  cases hst with
  | beginStep hbetween => exact h
  | @beacons w w' hw hheard hsame =>
    refine forall_mem_set h ?_
    rw [(World.clock_beaconTick auth _).2.1]
    exact hsame.clockOffsetS.trans (h w (List.mem_of_getElem? hw))
  | @clockSync w hw hheard =>
    refine forall_mem_set h ?_
    refine Eq.trans ?_ (h w (List.mem_of_getElem? hw))
    show (w.clockSync.tick w.neighbourTable.entries w.syncedTimeS w.clockOffsetS).2 = _
    rcases hcurrent w hw with hnone | hall
    · rw [ClockSyncSystem.tick_snd]
      unfold ClockSyncSystem.correction
      simp only [hnone, or_true, if_true, Option.map_none, Option.getD_none]
    · exact ClockSyncSystem.tick_of_current hall _
  | send i m => exact h
  | @other i w w' hw hsame =>
    exact forall_mem_set h (hsame.clockOffsetS.trans (h w (List.mem_of_getElem? hw)))

end Steps

/-! ### Stamps are not from the future -/

/-- Where a world is does not matter to the inboxes. -/
theorem SimNetwork.inbox_setWorld (net : SimNetwork ℚ U) (i : ℕ) (w : World ℚ U) (k : ℕ) :
    (net.setWorld i w).bus.inbox k = net.bus.inbox k :=
  SimBus.inbox_updateAll (f := fun p => { p with posFn := some w.position }) (fun _ => rfl) [i] k

/-- In the step that began when the worlds had run for `elapsedTimeS`, the clocks of those that have
ticked are ahead by `dt`, and no stamp is ahead of these. -/
structure ClockSwarm.InStep (s : ClockSwarm U) (elapsedTimeS c dt : ℚ) : Prop where
  elapsed : ∀ i w, s.net.worlds[i]? = some w → w.context.elapsedTimeS
    = elapsedTimeS + if i < s.next ∨ (i = s.next ∧ s.heard = true) then dt else 0
  offsets : s.Offsets c
  rate : ∀ w ∈ s.net.worlds, 0 < w.clockSync.params.adjustmentRate
  stamped : s.StampedUntil (elapsedTimeS + dt + c)

section Runs

variable {auth : Option SignatureScheme} {tickRateHz elapsedTimeS c : ℚ} {s s' : ClockSwarm U}
  {e : ClockEvent}

/-- Elapsed times, after an event for one world. -/
theorem elapsed_set {worlds : List (World ℚ U)} {j : ℕ} {w : World ℚ U} {time time' : ℕ → ℚ}
    (h : ∀ i w, worlds[i]? = some w → w.context.elapsedTimeS = time i)
    (hw : w.context.elapsedTimeS = time' j) (hother : ∀ i, i ≠ j → time' i = time i) :
    ∀ i w', (worlds.set j w)[i]? = some w' → w'.context.elapsedTimeS = time' i := by
  intro i w' hw'
  rw [List.getElem?_set] at hw'
  split at hw'
  · next hij =>
    split at hw'
    · cases hw'
      exact hij ▸ hw
    · cases hw'
  · next hij =>
    rw [hother i (Ne.symm hij)]
    exact h i w' hw'

namespace ClockSwarm.InStep

variable {dt : ℚ}

/-- The next step begins: all worlds have ticked, so all clocks show the same. -/
theorem beginStep (h : s.InStep elapsedTimeS c dt) (hdt : 0 ≤ dt)
    (hbetween : s.next = s.net.worlds.length) :
    (⟨s.net.rebuildGrid, 0, false⟩ : ClockSwarm U).InStep (elapsedTimeS + dt) c dt := by
  refine ⟨?_, h.offsets, h.rate, ?_⟩
  · intro i w hw
    have hlt : i < s.next := hbetween ▸ (List.getElem?_eq_some_iff.mp hw).1
    rw [h.elapsed i w hw, if_pos (.inl hlt), if_neg (by simp), add_zero]
  · have hle : elapsedTimeS + dt + c ≤ elapsedTimeS + dt + dt + c := by linarith
    exact ⟨fun w hw e he => (h.stamped.table w hw e he).trans hle,
      fun k sv hsv => (h.stamped.inbox k sv hsv).trans hle⟩

/-- `BeaconSystem` of the next world stamps its beacon with the time that the worlds show when they
have ticked, and stores stamps that were under way. -/
theorem beacons (h : s.InStep elapsedTimeS c (1 / tickRateHz)) {w w' : World ℚ U}
    (hw : s.net.worlds[s.next]? = some w) (hheard : s.heard = false)
    (hsame : (w.advance tickRateHz).SameClock w')
    (hoffsets : (⟨s.net.beaconTick auth s.next w', s.next, true⟩ : ClockSwarm U).Offsets c) :
    (⟨s.net.beaconTick auth s.next w', s.next, true⟩ : ClockSwarm U).InStep elapsedTimeS c
      (1 / tickRateHz) := by
  obtain ⟨hcontext, hoffset, hsync⟩ := World.clock_beaconTick auth (s.net.polling s.next w')
  have hmem : w ∈ s.net.worlds := List.mem_of_getElem? hw
  have hnow : w'.context.elapsedTimeS = elapsedTimeS + 1 / tickRateHz := by
    rw [hsame.context]
    show w.context.elapsedTimeS + 1 / tickRateHz = _
    rw [h.elapsed s.next w hw, if_neg (by simp [hheard]), add_zero]
  have hsynced : (s.net.polling s.next w').syncedTimeS = elapsedTimeS + 1 / tickRateHz + c := by
    show w'.context.elapsedTimeS + w'.clockOffsetS = _
    rw [hnow, hsame.clockOffsetS]
    exact congrArg _ (h.offsets w hmem)
  refine ⟨?_, hoffsets, ?_, ?_, ?_⟩
  · refine elapsed_set h.elapsed ?_ ?_
    · rw [hcontext, if_pos (.inr ⟨rfl, rfl⟩)]
      exact hnow
    · intro i hi
      simp only [hi, false_and, or_false]
  · refine forall_mem_set h.rate ?_
    rw [hsync]
    show 0 < w'.clockSync.params.adjustmentRate
    rw [hsame.params]
    exact h.rate w hmem
  · -- an entry is an old one or a beacon that has been polled
    refine forall_mem_set h.stamped.table fun entry hentry => ?_
    have husable : usable (s.net.polling s.next w').beaconTransport = true := rfl
    rw [World.neighbourTable_beaconTick, if_pos husable] at hentry
    rcases World.mem_inboxAfter_or hentry with hold | ⟨sv, hsv, -, rfl⟩
    · refine h.stamped.table w hmem entry ?_
      have hold : entry ∈ w'.neighbourTable.entries := hold
      rw [hsame.neighbourTable] at hold
      exact hold
    · exact h.stamped.inbox s.next sv hsv
  · -- a beacon under way was so before, or it is this world's
    intro k sv hsv
    rcases SimNetwork.mem_inbox_beaconTick hsv with ⟨-, hold⟩ | hnew
    · exact h.stamped.inbox k sv hold
    · rcases World.mem_sent_beaconTick.mp hnew with hsent | hout
      · cases hsent
      · rw [World.mem_outgoing hout, StateVector.syncTimeS_signed]
        exact hsynced.le

/-- `ClockSyncSystem` moves the offset, which by assumption stays, and no stamp. -/
theorem clockSync (h : s.InStep elapsedTimeS c dt) {w : World ℚ U}
    (hw : s.net.worlds[s.next]? = some w) (hheard : s.heard = true)
    (hoffsets : (⟨s.net.systemTick auth s.next w .clockSync, s.next + 1, false⟩
      : ClockSwarm U).Offsets c) :
    (⟨s.net.systemTick auth s.next w .clockSync, s.next + 1, false⟩ : ClockSwarm U).InStep
      elapsedTimeS c dt := by
  have hmem : w ∈ s.net.worlds := List.mem_of_getElem? hw
  refine ⟨?_, hoffsets, ?_, ?_, ?_⟩
  · refine elapsed_set h.elapsed ?_ ?_
    · rw [if_pos (.inl (Nat.lt_succ_self s.next))]
      show w.context.elapsedTimeS = _
      rw [h.elapsed s.next w hw, if_pos (.inr ⟨rfl, hheard⟩)]
    · -- for the others it makes no difference whose turn it is
      intro i hi
      have hiff : i < s.next + 1 ∨ (i = s.next + 1 ∧ false = true)
          ↔ i < s.next ∨ (i = s.next ∧ s.heard = true) := by
        simp only [hi, Bool.false_eq_true, and_false, or_false, false_and]
        omega
      simp only [hiff]
  · refine forall_mem_set h.rate ?_
    show 0 < (w.clockSync.tick w.neighbourTable.entries w.syncedTimeS
      w.clockOffsetS).1.params.adjustmentRate
    rw [ClockSyncSystem.params_tick]
    exact h.rate w hmem
  · exact forall_mem_set h.stamped.table (h.stamped.table w hmem)
  · intro k sv hsv
    exact h.stamped.inbox k sv (SimNetwork.inbox_setWorld _ _ _ k ▸ hsv)

/-- A message is no beacon. -/
theorem send (h : s.InStep elapsedTimeS c dt) (i : ℕ) (m : Message ℚ) :
    ({ s with net := s.net.sendAll i [.message m] } : ClockSwarm U).InStep elapsedTimeS c dt := by
  refine ⟨h.elapsed, h.offsets, h.rate, h.stamped.table, ?_⟩
  intro k sv hsv
  rcases SimBus.mem_inbox_foldl hsv with hold | hnew
  · exact h.stamped.inbox k sv hold
  · simp at hnew

theorem other (h : s.InStep elapsedTimeS c dt) {i : ℕ} {w w' : World ℚ U}
    (hw : s.net.worlds[i]? = some w) (hsame : w.SameClock w')
    (hoffsets : ({ s with net := s.net.setWorld i w' } : ClockSwarm U).Offsets c) :
    ({ s with net := s.net.setWorld i w' } : ClockSwarm U).InStep elapsedTimeS c dt := by
  have hmem : w ∈ s.net.worlds := List.mem_of_getElem? hw
  refine ⟨?_, hoffsets, ?_, ?_, ?_⟩
  · refine elapsed_set h.elapsed ?_ fun _ _ => rfl
    rw [hsame.context]
    exact h.elapsed i w hw
  · refine forall_mem_set h.rate ?_
    rw [hsame.params]
    exact h.rate w hmem
  · refine forall_mem_set h.stamped.table ?_
    rw [hsame.neighbourTable]
    exact h.stamped.table w hmem
  · intro k sv hsv
    exact h.stamped.inbox k sv (SimNetwork.inbox_setWorld _ _ _ k ▸ hsv)

end ClockSwarm.InStep

/-- **What one event keeps**, as long as the offsets stay. -/
theorem ClockStep.inStep (hrate : 0 < tickRateHz) (hst : ClockStep auth tickRateHz s e s')
    (h : s.InStep elapsedTimeS c (1 / tickRateHz)) (hoffsets : s'.Offsets c) :
    ∃ t, s'.InStep t c (1 / tickRateHz) := by
  cases hst with
  | beginStep hbetween => exact ⟨_, h.beginStep (one_div_pos.mpr hrate).le hbetween⟩
  | beacons hw hheard hsame => exact ⟨_, h.beacons hw hheard hsame hoffsets⟩
  | clockSync hw hheard => exact ⟨_, h.clockSync hw hheard hoffsets⟩
  | send i m => exact ⟨_, h.send i m⟩
  | other hw hsame => exact ⟨_, h.other hw hsame hoffsets⟩

/-- Offsets that stay show that the stamps were current. -/
theorem ClockStep.meetsCurrent (hst : ClockStep auth tickRateHz s e s')
    (h : s.InStep elapsedTimeS c (1 / tickRateHz)) (hoffsets : s'.Offsets c) :
    s.MeetsCurrent e := by
  cases hst with
  | @clockSync w hw hheard =>
    intro w' hw'
    obtain rfl : w = w' := Option.some.inj (hw.symm.trans hw')
    have hmem : w ∈ s.net.worlds := List.mem_of_getElem? hw
    by_contra hnot
    push Not at hnot
    obtain ⟨hcount, entry, hentry, hne⟩ := hnot
    have hnow : w.syncedTimeS = elapsedTimeS + 1 / tickRateHz + c := by
      show w.context.elapsedTimeS + w.clockOffsetS = _
      rw [h.elapsed s.next w hw, if_pos (.inr ⟨rfl, hheard⟩), h.offsets w hmem]
    have hle : ∀ e ∈ w.neighbourTable.entries, e.syncTimeS ≤ w.syncedTimeS :=
      fun e he => hnow ▸ h.stamped.table w hmem e he
    have hbehind := w.clockSync.tick_of_behind (h.rate w hmem) hcount hle
      ⟨entry, hentry, lt_of_le_of_ne (hle entry hentry) hne⟩ w.clockOffsetS
    have hset : ShippedSystem.clockSync.tick auth (s.net.polling s.next w)
        ∈ s.net.worlds.set s.next (ShippedSystem.clockSync.tick auth (s.net.polling s.next w)) :=
      List.mem_set (List.getElem?_eq_some_iff.mp hw).1 _
    exact hbehind.ne ((hoffsets _ hset).trans (h.offsets w hmem).symm)
  | beginStep _ | beacons _ _ _ | send _ _ | other _ _ => trivial

/-- **When agreement is stable.** In every run in which `ClockSyncSystem` meets current stamps only,
the offsets stay as they are. If no stamp is from the future to begin with, they stay in no other
run. -/
theorem agreement_stable (auth : Option SignatureScheme) (tickRateHz : ℚ)
    (hagrees : s.Agrees elapsedTimeS c) (es : List ClockEvent) (s' : ClockSwarm U) :
    (Run (Guarded (ClockStep auth tickRateHz) ClockSwarm.MeetsCurrent) s es s' →
      Run (fun m e m' => ClockStep auth tickRateHz m e m' ∧ m'.Offsets c) s es s') ∧
    (0 < tickRateHz → s.StampedUntil (elapsedTimeS + c) →
      Run (fun m e m' => ClockStep auth tickRateHz m e m' ∧ m'.Offsets c) s es s' →
      Run (Guarded (ClockStep auth tickRateHz) ClockSwarm.MeetsCurrent) s es s') := by
  constructor
  · intro hcurrent
    have hkeep : Run (fun m e m' => Guarded (ClockStep auth tickRateHz)
        ClockSwarm.MeetsCurrent m e m' ∧ m'.Offsets c) s es s' :=
      hcurrent.strengthen (I := fun m => m.Offsets c)
        (fun _ _ _ hm hst => hst.2.offsets hm hst.1) (fun _ _ _ hm hst => hst.2.offsets hm hst.1)
        hagrees.offsets
    exact hkeep.mono fun _ _ _ h => ⟨h.1.2, h.2⟩
  · intro hrate hstamped hoffsets
    -- the worlds are at the end of a step
    have hstart : s.InStep (elapsedTimeS - 1 / tickRateHz) c (1 / tickRateHz) := by
      refine ⟨?_, hagrees.offsets, hagrees.rate, ?_⟩
      · intro i w hw
        have hlt : i < s.next := hagrees.between ▸ (List.getElem?_eq_some_iff.mp hw).1
        rw [hagrees.elapsed w (List.mem_of_getElem? hw), if_pos (.inl hlt), sub_add_cancel]
      · rwa [sub_add_cancel]
    have hmeets := hoffsets.strengthen
      (I := fun m => ∃ t, m.InStep t c (1 / tickRateHz)) (P := fun m e _ => m.MeetsCurrent e)
      (fun _ _ _ ⟨t, hm⟩ hst => hst.1.inStep hrate hm hst.2)
      (fun _ _ _ ⟨t, hm⟩ hst => hst.1.meetsCurrent hm hst.2) ⟨_, hstart⟩
    exact hmeets.mono fun _ _ _ h => ⟨h.2, h.1.1⟩

end Runs

/-! ### Two worlds with default parameters -/

/-- The next event of a simulation whose worlds have no other systems, at 20 ticks a second. -/
def ClockSwarm.play (s : ClockSwarm Unit) : ClockSwarm Unit :=
  match s.net.worlds[s.next]?, s.heard with
  | some w, false => ⟨s.net.beaconTick none s.next (w.advance 20), s.next, true⟩
  | some w, true => ⟨s.net.systemTick none s.next w .clockSync, s.next + 1, false⟩
  | none, _ => ⟨s.net.rebuildGrid, 0, false⟩

/-- `ClockSyncSystem`, if it is next, meets current stamps only. -/
def ClockSwarm.PlaysCurrent (s : ClockSwarm Unit) : Prop :=
  s.heard = true → ∀ w ∈ s.net.worlds[s.next]?, ∀ e ∈ w.neighbourTable.entries,
    e.syncTimeS = w.syncedTimeS

instance (s : ClockSwarm Unit) : Decidable s.PlaysCurrent :=
  inferInstanceAs (Decidable (_ → _))

/-- What is played is one event. -/
theorem ClockSwarm.play_step {s : ClockSwarm Unit} (hnext : s.next ≤ s.net.worlds.length) :
    s.play.next ≤ s.play.net.worlds.length ∧
      ∃ e, ClockStep none 20 s e s.play ∧ (s.PlaysCurrent → s.MeetsCurrent e) := by
  unfold play
  cases hw : s.net.worlds[s.next]? with
  | none =>
    have hbetween : s.next = s.net.worlds.length :=
      hnext.antisymm (List.getElem?_eq_none_iff.mp hw)
    exact ⟨Nat.zero_le _, .beginStep, .beginStep hbetween, fun _ => trivial⟩
  | some w =>
    have hlt : s.next < s.net.worlds.length := (List.getElem?_eq_some_iff.mp hw).1
    cases hheard : s.heard with
    | false =>
      refine ⟨?_, .beacons, .beacons hw hheard (.refl _), fun _ => trivial⟩
      show s.next ≤ (s.net.worlds.set s.next _).length
      rw [List.length_set]
      exact hnext
    | true =>
      refine ⟨?_, .clockSync, .clockSync hw hheard, fun h w hw => .inr (h hheard w hw)⟩
      show s.next + 1 ≤ (s.net.worlds.set s.next _).length
      rw [List.length_set]
      exact hlt

theorem ClockSwarm.play_run {s : ClockSwarm Unit} (hnext : s.next ≤ s.net.worlds.length) (n : ℕ) :
    (play^[n] s).next ≤ (play^[n] s).net.worlds.length ∧
      ∃ es, Run (ClockStep none 20) s es (play^[n] s) ∧
        ((∀ k < n, (play^[k] s).PlaysCurrent) →
          Run (Guarded (ClockStep none 20) ClockSwarm.MeetsCurrent) s es (play^[n] s)) := by
  induction n with
  | zero => exact ⟨hnext, [], .nil, fun _ => .nil⟩
  | succ n ih =>
    obtain ⟨hn, es, hrun, hcurrent⟩ := ih
    obtain ⟨hn', e, hst, hmeets⟩ := play_step hn
    rw [Function.iterate_succ_apply']
    refine ⟨hn', es ++ [e], hrun.snoc hst, fun h => ?_⟩
    have hlast : (play^[n] s).PlaysCurrent := h n (Nat.lt_succ_self n)
    exact (hcurrent fun k hk => h k (hk.trans (Nat.lt_succ_self n))).snoc ⟨hmeets hlast, hst⟩

def defaultWorld (i : UInt8) : World ℚ Unit :=
  .init WorldConfig.default ⟨1, ⟨Vector.replicate 16 (i + 1)⟩⟩ none [] (some ⟨true⟩)
    (some ⟨true⟩) ()

def defaultPair : ClockSwarm Unit where
  net := ((SimNetwork.init 10).createWorld (defaultWorld 0)).createWorld (defaultWorld 1)
  next := 2
  heard := false

theorem defaultPair_agrees : defaultPair.Agrees 0 0 where
  between := rfl
  unheard := rfl
  elapsed := by decide
  offsets := by
    unfold ClockSwarm.Offsets
    decide +kernel
  rate := by decide +kernel

/-- In the second step the second world meets the first stamp of the first, and it is current. -/
theorem defaultPair_stable : ∃ es,
    Run (fun m e m' => ClockStep none 20 m e m' ∧ m'.Offsets 0) defaultPair es
      (ClockSwarm.play^[10] defaultPair) ∧
    Run (Guarded (ClockStep none 20) ClockSwarm.MeetsCurrent) defaultPair es
      (ClockSwarm.play^[10] defaultPair) ∧
    (ClockSwarm.play^[10] defaultPair).net.worlds[1]?.map (fun w =>
      (w.neighbourTable.entries.map Entry.syncTimeS, w.syncedTimeS)) = some ([1 / 10], 1 / 10) := by
  obtain ⟨-, es, -, hcurrent⟩ := ClockSwarm.play_run (s := defaultPair) (by decide) 10
  obtain ⟨hstays, hmeets⟩ := agreement_stable none 20 defaultPair_agrees es
    (ClockSwarm.play^[10] defaultPair)
  have hstamped : defaultPair.StampedUntil (0 + 0) := by
    refine ⟨by decide +kernel, fun k sv hsv => ?_⟩
    have hnone : defaultPair.net.bus.inbox k = [] :=
      (SimNetwork.inbox_createWorld _ _ k).trans (SimNetwork.inbox_createWorld _ _ k)
    rw [hnone] at hsv
    cases hsv
  have hrun := hstays (hcurrent (by decide +kernel))
  exact ⟨es, hrun, hmeets (by norm_num) hstamped hrun, by decide +kernel⟩

/-- In the third step the first world reads the stamp of the second from the step before, and sets
its clock back. -/
theorem defaultPair_drifts : ¬ ∀ (auth : Option SignatureScheme) (tickRateHz elapsedTimeS c : ℚ)
    (s s' : ClockSwarm Unit) (es : List ClockEvent), 0 < tickRateHz → s.Agrees elapsedTimeS c →
    (∀ w ∈ s.net.worlds, w.clockSync.params.adjustmentRate ≤ 1) →
    (∀ w ∈ s.net.worlds, ∀ w' ∈ s.net.worlds,
      SimBus.InRange s.net.bus.commRangeM w.position w'.position) →
    Run (ClockStep auth tickRateHz) s es s' → s'.Offsets c := by
  intro h
  obtain ⟨-, es, hrun, -⟩ := ClockSwarm.play_run (s := defaultPair) (by decide) 13
  have hinRange : ∀ w ∈ defaultPair.net.worlds, ∀ w' ∈ defaultPair.net.worlds,
      SimBus.InRange defaultPair.net.bus.commRangeM w.position w'.position := by
    unfold SimBus.InRange
    decide +kernel
  have hoffsets := h none 20 0 0 defaultPair _ es (by norm_num) defaultPair_agrees
    (by decide +kernel) hinRange hrun
  have hback : (ClockSwarm.play^[13] defaultPair).net.worlds[0]?.map World.clockOffsetS
      = some (-1 / 200 : ℚ) := by decide +kernel
  obtain ⟨w, hw, hoffset⟩ := Option.map_eq_some_iff.mp hback
  rw [hoffsets w (List.mem_of_getElem? hw)] at hoffset
  norm_num at hoffset

end MithAtomas
