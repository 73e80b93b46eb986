import MithAtomas.Comms.HonestBeacon
import MithAtomas.Comms.NeighbourTableHistory
import MithAtomas.Core.BeaconTick
import MithAtomas.Core.IdentityRotation

/-!
# Beacons that come late, or again

One robot listens to another, in signed mode. The sender signs all it sends under its id; the medium
hands its beacons out in any order, late or again and again, and mixes them with whatever else is on
the air under other ids (`ReceiverStep.arrive`).

The tick of a beacon is among the bytes that are signed, but nothing compares it with the tick of a
beacon that has come before: a beacon that was valid once is accepted as often as it arrives. So the
entry of the sender is whatever was delivered last (`find_inboxAfter_sender`, `ReceiverInv.entry`),
with the time of that delivery, and an old beacon that is replayed takes the entry back to the past
(`replay_rewinds_entry`).
-/

namespace MithAtomas

open Runs

variable {F U : Type} [FloatScalar F] {scheme : SignatureScheme}

/-- Who is listened to. -/
structure Sender where
  hid : HierarchicalID
  keypair : IdentityKeyPair

/-- A beacon as the sender sends it. -/
def Sender.Signs (scheme : SignatureScheme) (p : Sender) (b : StateVector F) : Prop :=
  b.id = p.hid ∧ ∃ sv : StateVector F, b = sv.signed (some scheme) (some p.keypair)

/-- The registry holds no other key for the sender than its own. -/
def Sender.PinnedBy (p : Sender) (keys : PeerKeyRegistry) : Prop :=
  ∀ key, keys.find p.hid = some key → key = p.keypair.publicKey

variable {p : Sender}

theorem Sender.Signs.senderPubkey {b : StateVector F} (h : p.Signs scheme b) :
    b.senderPubkey = p.keypair.publicKey := by
  obtain ⟨-, sv, rfl⟩ := h
  rfl

theorem Sender.Signs.vouched {b : StateVector F} (h : p.Signs scheme b)
    (hcorrect : scheme.Correct p.keypair) {keys : PeerKeyRegistry} (hpinned : p.PinnedBy keys) :
    BeaconInbox.Vouched scheme keys b where
  verifies := by
    obtain ⟨-, sv, rfl⟩ := h
    exact StateVector.verifies_signed hcorrect sv
  pinned := by
    intro key hkey
    rw [h.1] at hkey
    rw [h.senderPubkey]
    exact hpinned key hkey

theorem Sender.PinnedBy.receive {selfId : HierarchicalID} {now : F} {inbox : BeaconInbox F}
    (h : p.PinnedBy inbox.keys) {b : StateVector F} (hb : b.id = p.hid → p.Signs scheme b)
    (auth : Option SignatureScheme) :
    p.PinnedBy (BeaconInbox.receive auth selfId now inbox b).keys := by
  intro key hkey
  rcases BeaconInbox.find_receive_new hkey with hold | ⟨hhid, rfl⟩
  · exact h key hold
  · exact (hb hhid.symm).senderPubkey

/-! ### One poll -/

namespace World

variable {w : World F U}

theorem pinnedBy_inboxAfter {polled : List (StateVector F)} (h : p.PinnedBy w.peerKeys)
    (hpolled : ∀ b ∈ polled, b.id = p.hid → p.Signs scheme b) :
    p.PinnedBy (w.inboxAfter (some scheme) polled).keys :=
  List.foldlRecOn (motive := fun inbox : BeaconInbox F => p.PinnedBy inbox.keys) polled _ h
    fun _ ih b hb => ih.receive (hpolled b hb) (some scheme)

/-- **After some of the beacons polled** the sender's entry is the last of its beacons among them,
and what the aged table had if there was none. -/
theorem find_inboxAfter_sender (hcorrect : scheme.Correct p.keypair)
    (hdistinct : ∀ polled, (w.inboxAfter (some scheme) polled).table.Distinct)
    (hself : w.identity ≠ p.hid) (hpinned : p.PinnedBy w.peerKeys)
    {polled : List (StateVector F)} (hpolled : ∀ b ∈ polled, b.id = p.hid → p.Signs scheme b) :
    (w.inboxAfter (some scheme) polled).table.find p.hid
      = match (polled.filter fun b => b.id = p.hid).getLast? with
        | some b => some (Entry.ofBeacon b w.context.elapsedTimeS none)
        | none => w.ageNeighbours.neighbourTable.find p.hid := by
  induction polled using List.reverseRecOn with
  | nil => rfl
  | append_singleton polled b ih =>
    have hbefore : ∀ b' ∈ polled, b'.id = p.hid → p.Signs scheme b' :=
      fun b' hb' => hpolled b' (List.mem_append_left _ hb')
    have hlast : w.inboxAfter (some scheme) (polled ++ [b])
        = BeaconInbox.receive (some scheme) w.identity w.context.elapsedTimeS
          (w.inboxAfter (some scheme) polled) b := List.foldl_concat _ _ _ _
    rw [hlast, List.filter_append]
    by_cases hb : b.id = p.hid
    · -- the sender's: it is accepted, and it is the last one
      have hsigns := hpolled b (List.mem_append_right _ (List.mem_singleton_self b)) hb
      have hvouched : ∀ scheme', some scheme = some scheme' → b.senderPubkey.present = true →
          BeaconInbox.Vouched scheme' (w.inboxAfter (some scheme) polled).keys b := by
        rintro _ ⟨⟩ -
        exact hsigns.vouched hcorrect (pinnedBy_inboxAfter hpinned hbefore)
      have hother : b.id ≠ w.identity := hb ▸ Ne.symm hself
      rw [(BeaconInbox.receive_vouched hvouched hother).1,
        (hdistinct polled).find_upsert, if_pos hb,
        List.filter_cons_of_pos (by simpa using hb), List.filter_nil, List.getLast?_concat]
    · -- somebody else's
      rw [List.filter_cons_of_neg (by simpa using hb), List.filter_nil, List.append_nil,
        ← ih hbefore]
      rcases BeaconInbox.table_receive scheme w.identity w.context.elapsedTimeS
        (w.inboxAfter (some scheme) polled) b with hstay | ⟨hupsert, -⟩
      · rw [hstay]
      · rw [hupsert, (hdistinct polled).find_upsert, if_neg hb]

end World

/-! ### Runs -/

variable (F U) in
/-- The robot that listens. -/
structure Receiver where
  world : World F U
  /-- the beacons of the sender that were delivered, each with the time -/
  delivered : List (StateVector F × F)

variable (F) in
inductive ReceiverEvent where
  | arrive (beacons : List (StateVector F)) (messages : List (Message F))
  | tick (s : ShippedSystem)
  /-- the clock, a rotation of the identity, the mission -/
  | other

/-- The sender's beacons that a tick of `s` delivers. -/
def Receiver.heard (p : Sender) (r : Receiver F U) (s : ShippedSystem) : List (StateVector F) :=
  if s = .beacon ∧ usable r.world.beaconTransport then
    r.world.rxBeacons.filter fun b => b.id = p.hid
  else []

/-- Packets arrive. -/
def Receiver.arrive (r : Receiver F U) (beacons : List (StateVector F))
    (messages : List (Message F)) : Receiver F U :=
  { r with world := { r.world with
      rxBeacons := r.world.rxBeacons ++ beacons
      rxMessages := r.world.rxMessages ++ messages } }

/-- A tick of `s`. -/
def Receiver.tick (scheme : SignatureScheme) (p : Sender) (r : Receiver F U) (s : ShippedSystem) :
    Receiver F U where
  world := s.tick (some scheme) r.world
  delivered := r.delivered ++ (r.heard p s).map fun b => (b, r.world.context.elapsedTimeS)

/-- One event: what arrives under the sender's id is the sender's, one of the beacons `emitted`. -/
inductive ReceiverStep (scheme : SignatureScheme) (p : Sender) (emitted : List (StateVector F)) :
    Receiver F U → ReceiverEvent F → Receiver F U → Prop
  | arrive (r : Receiver F U) (beacons : List (StateVector F)) (messages : List (Message F))
      (hbeacons : ∀ b ∈ beacons, b.id = p.hid → b ∈ emitted)
      (hmessages : ∀ m ∈ messages, m.sender = p.hid → ∀ key,
        DiscoverySystem.extractPubkey m = some key → key = p.keypair.publicKey) :
      ReceiverStep scheme p emitted r (.arrive beacons messages) (r.arrive beacons messages)
  | tick (r : Receiver F U) (s : ShippedSystem) :
      ReceiverStep scheme p emitted r (.tick s) (r.tick scheme p s)
  | other (r : Receiver F U) (w : World F U)
      (hentries : w.neighbourTable.entries = r.world.neighbourTable.entries)
      (hkeys : w.peerKeys = r.world.peerKeys) (hbeacons : w.rxBeacons = r.world.rxBeacons)
      (hmessages : w.rxMessages = r.world.rxMessages) (hself : w.identity ≠ p.hid) :
      ReceiverStep scheme p emitted r .other { r with world := w }

/-- What holds of the receiver. -/
structure ReceiverInv (p : Sender) (emitted : List (StateVector F)) (r : Receiver F U) : Prop where
  distinct : r.world.neighbourTable.Distinct
  self : r.world.identity ≠ p.hid
  pinned : p.PinnedBy r.world.peerKeys
  beacons : ∀ b ∈ r.world.rxBeacons, b.id = p.hid → b ∈ emitted
  messages : ∀ m ∈ r.world.rxMessages, m.sender = p.hid → ∀ key,
    DiscoverySystem.extractPubkey m = some key → key = p.keypair.publicKey
  delivered : ∀ d ∈ r.delivered, d.1 ∈ emitted
  /-- **the entry is what was delivered last** -/
  entry : ∀ e, r.world.neighbourTable.find p.hid = some e → ∃ b t,
    r.delivered.getLast? = some (b, t) ∧ e = Entry.ofBeacon b t none

section Invariant

variable {emitted : List (StateVector F)} {r r' : Receiver F U} {e : ReceiverEvent F}

/-- **A tick of `BeaconSystem`**: its entry is the last beacon delivered in it, or what it was. -/
theorem ReceiverInv.entry_beaconTick (hI : ReceiverInv p emitted r)
    (hcorrect : scheme.Correct p.keypair) (hsigns : ∀ b ∈ emitted, p.Signs scheme b) {e : Entry F}
    (he : (r.world.beaconTick (some scheme)).neighbourTable.find p.hid = some e) :
    ∃ b t, (r.tick scheme p .beacon).delivered.getLast? = some (b, t) ∧
      e = Entry.ofBeacon b t none := by
  -- ageing out takes entries away, and changes none
  have haged : ∀ e, r.world.ageNeighbours.neighbourTable.find p.hid = some e →
      r.world.neighbourTable.find p.hid = some e := by
    intro e he
    change (r.world.neighbourTable.ageOut _ _).find p.hid = some e at he
    rw [hI.distinct.find_ageOut] at he
    exact (Option.filter_eq_some_iff.mp he).1
  rw [World.neighbourTable_beaconTick] at he
  unfold Receiver.tick Receiver.heard
  dsimp only
  by_cases husable : usable r.world.beaconTransport = true
  · rw [if_pos husable, World.find_inboxAfter_sender hcorrect
      (fun polled => World.distinct_inboxAfter hI.distinct polled) hI.self hI.pinned
      fun b hb hid => hsigns b (hI.beacons b hb hid)] at he
    rw [if_pos ⟨rfl, husable⟩]
    cases hlast : (r.world.rxBeacons.filter fun b => b.id = p.hid).getLast? with
    | none =>
      -- nothing of the sender was polled, so the entry is an old one
      rw [hlast] at he
      rw [List.getLast?_eq_none_iff.mp hlast, List.map_nil, List.append_nil]
      exact hI.entry e (haged e he)
    | some b =>
      rw [hlast] at he
      refine ⟨b, r.world.context.elapsedTimeS, ?_, (Option.some.inj he).symm⟩
      rw [List.getLast?_append, List.getLast?_map, hlast]
      rfl
  · rw [if_neg husable] at he
    rw [if_neg fun h => husable h.2, List.map_nil, List.append_nil]
    exact hI.entry e (haged e he)

/-- The registry after a tick of `BeaconSystem`. -/
theorem ReceiverInv.pinned_beaconTick (hI : ReceiverInv p emitted r)
    (hsigns : ∀ b ∈ emitted, p.Signs scheme b) :
    p.PinnedBy (r.world.beaconTick (some scheme)).peerKeys := by
  refine World.peerKeys_beaconTick_invariant (I := p.PinnedBy) ?_ ?_ hI.pinned
  · intro b hb inbox h
    exact h.receive (fun hid => hsigns b (hI.beacons b hb hid)) (some scheme)
  · intro m hm _ keys h key hkey
    rcases DiscoverySystem.find_pinAdvertised_new hkey with hold | ⟨hhid, hadvertised⟩
    · exact h key hold
    · exact hI.messages m hm hhid.symm key hadvertised

/-- What waits on the transports is polled, or stays. -/
theorem ShippedSystem.rx_tick (s : ShippedSystem) (w : World F U) (auth : Option SignatureScheme) :
    (∀ b ∈ (s.tick auth w).rxBeacons, b ∈ w.rxBeacons) ∧
      ∀ m ∈ (s.tick auth w).rxMessages, m ∈ w.rxMessages := by
  by_cases hs : s = .beacon
  · subst hs
    show (∀ b ∈ (w.beaconTick auth).rxBeacons, b ∈ w.rxBeacons) ∧
      ∀ m ∈ (w.beaconTick auth).rxMessages, m ∈ w.rxMessages
    rw [World.rxBeacons_beaconTick, World.rxMessages_beaconTick]
    constructor
    · intro b hb
      split at hb
      · cases hb
      · exact hb
    · intro m hm
      split at hm
      · cases hm
      · exact hm
  · have hbeacons : (s.tick auth w).rxBeacons = w.rxBeacons :=
      s.tick_frame (l := .rxBeacons) w (by cases s <;> first | exact absurd rfl hs | decide)
    have hmessages : (s.tick auth w).rxMessages = w.rxMessages :=
      s.tick_frame (l := .rxMessages) w (by cases s <;> first | exact absurd rfl hs | decide)
    rw [hbeacons, hmessages]
    exact ⟨fun _ h => h, fun _ h => h⟩

/-- What a tick delivers was emitted. -/
theorem ReceiverInv.delivered_tick (hI : ReceiverInv p emitted r) (s : ShippedSystem) :
    ∀ d ∈ (r.tick scheme p s).delivered, d.1 ∈ emitted := by
  intro d hd
  rcases List.mem_append.mp hd with hold | hnew
  · exact hI.delivered d hold
  · obtain ⟨b, hb, rfl⟩ := List.mem_map.mp hnew
    unfold Receiver.heard at hb
    split at hb
    · obtain ⟨hmem, hid⟩ := List.mem_filter.mp hb
      exact hI.beacons b hmem (of_decide_eq_true hid)
    · cases hb

theorem ReceiverInv.tick_beacon (hI : ReceiverInv p emitted r)
    (hcorrect : scheme.Correct p.keypair) (hsigns : ∀ b ∈ emitted, p.Signs scheme b) :
    ReceiverInv p emitted (r.tick scheme p .beacon) := by
  obtain ⟨hbeacons, hmessages⟩ := ShippedSystem.beacon.rx_tick r.world (some scheme)
  refine ⟨?_, ?_, hI.pinned_beaconTick hsigns, fun b hb => hI.beacons b (hbeacons b hb),
    fun m hm => hI.messages m (hmessages m hm), hI.delivered_tick _,
    fun e he => hI.entry_beaconTick hcorrect hsigns he⟩
  · show (r.world.beaconTick (some scheme)).neighbourTable.Distinct
    rw [World.neighbourTable_beaconTick]
    split
    · exact World.distinct_inboxAfter hI.distinct _
    · exact hI.distinct.ageOut _ _
  · show (ShippedSystem.tick (some scheme) .beacon r.world).identity ≠ p.hid
    rw [ShippedSystem.identity_tick]
    exact hI.self

/-- Nobody else touches the table or the registry. -/
theorem ReceiverInv.tick_other (hI : ReceiverInv p emitted r) {s : ShippedSystem}
    (hs : s ≠ .beacon) : ReceiverInv p emitted (r.tick scheme p s) := by
  obtain ⟨hbeacons, hmessages⟩ := s.rx_tick r.world (some scheme)
  -- only `BeaconSystem` writes the table and the pins
  have htable : (s.tick (some scheme) r.world).neighbourTable = r.world.neighbourTable :=
    s.tick_frame (l := .neighbourTable) _ (by cases s <;> first | exact absurd rfl hs | decide)
  have hkeys : (s.tick (some scheme) r.world).peerKeys = r.world.peerKeys :=
    s.tick_frame (l := .peerKeys) _ (by cases s <;> first | exact absurd rfl hs | decide)
  have hheard : r.heard p s = [] := if_neg fun h => hs h.1
  refine ⟨?_, ?_, ?_, fun b hb => hI.beacons b (hbeacons b hb),
    fun m hm => hI.messages m (hmessages m hm), hI.delivered_tick s, ?_⟩
  · show (s.tick (some scheme) r.world).neighbourTable.Distinct
    rw [htable]
    exact hI.distinct
  · show (s.tick (some scheme) r.world).identity ≠ p.hid
    rw [ShippedSystem.identity_tick]
    exact hI.self
  · show p.PinnedBy (s.tick (some scheme) r.world).peerKeys
    rw [hkeys]
    exact hI.pinned
  · intro e he
    change (s.tick (some scheme) r.world).neighbourTable.find p.hid = some e at he
    rw [htable] at he
    unfold Receiver.tick
    rw [hheard, List.map_nil, List.append_nil]
    exact hI.entry e he

/-- **A tick keeps the invariant.** -/
theorem ReceiverInv.tick (hI : ReceiverInv p emitted r) (hcorrect : scheme.Correct p.keypair)
    (hsigns : ∀ b ∈ emitted, p.Signs scheme b) (s : ShippedSystem) :
    ReceiverInv p emitted (r.tick scheme p s) := by
  by_cases hs : s = .beacon
  · exact hs ▸ hI.tick_beacon hcorrect hsigns
  · exact hI.tick_other hs

/-- **Every event keeps the invariant.** -/
theorem ReceiverInv.step (hI : ReceiverInv p emitted r) (hcorrect : scheme.Correct p.keypair)
    (hsigns : ∀ b ∈ emitted, p.Signs scheme b) (hst : ReceiverStep scheme p emitted r e r') :
    ReceiverInv p emitted r' := by
  cases hst with
  | arrive beacons messages hbeacons hmessages =>
    -- what waits to be polled is from the medium
    refine ⟨hI.distinct, hI.self, hI.pinned, ?_, ?_, hI.delivered, hI.entry⟩
    · intro b hb
      rcases List.mem_append.mp hb with hold | hnew
      · exact hI.beacons b hold
      · exact hbeacons b hnew
    · intro m hm
      rcases List.mem_append.mp hm with hold | hnew
      · exact hI.messages m hold
      · exact hmessages m hnew
  | tick s => exact hI.tick hcorrect hsigns s
  | other w hentries hkeys hbeacons hmessages hself =>
    have hfind : ∀ hid, w.neighbourTable.find hid = r.world.neighbourTable.find hid := by
      intro hid
      unfold NeighbourTable.find
      rw [hentries]
    refine ⟨?_, hself, hkeys ▸ hI.pinned, hbeacons ▸ hI.beacons, hmessages ▸ hI.messages,
      hI.delivered, fun e he => hI.entry e (hfind p.hid ▸ he)⟩
    unfold NeighbourTable.Distinct
    rw [hentries]
    exact hI.distinct

omit [FloatScalar F] in
theorem tick_le_getLast {delivered : List (StateVector F × F)}
    (h : delivered.Pairwise fun d d' => d.1.tick < d'.1.tick) {b : StateVector F} {t : F}
    (hlast : delivered.getLast? = some (b, t)) {d : StateVector F × F} (hd : d ∈ delivered) :
    d.1.tick ≤ b.tick := by
  obtain ⟨before, rfl⟩ := List.getLast?_eq_some_iff.mp hlast
  rcases List.mem_append.mp hd with hbefore | hsame
  · exact UInt32.le_of_lt ((List.pairwise_append.mp h).2.2 d hbefore _ (List.mem_singleton_self _))
  · rw [List.mem_singleton.mp hsame]
    exact UInt32.le_refl _

/-- **The last delivery counts.** In every run the sender's entry, if there is one, holds the
fields of the beacon of its that was delivered last, and the time of that delivery; this is the
beacon with the largest tick if they came in the order of their ticks. Within a tick each of its
beacons in turn, old or new, puts its own fields and the present time into the entry. -/
theorem entry_is_last_delivered (p : Sender) (hcorrect : scheme.Correct p.keypair)
    (config : WorldConfig F) (identity : HierarchicalID) (hself : identity ≠ p.hid)
    (keypair : Option IdentityKeyPair) (handlers : List MessageHandler)
    (beaconTransport messageTransport : Option Channel) (user : U) (emitted : List (StateVector F))
    (hsigns : ∀ b ∈ emitted, p.Signs scheme b) {es : List (ReceiverEvent F)} {r : Receiver F U}
    (hrun : Run (ReceiverStep scheme p emitted)
      ⟨World.init config identity keypair handlers beaconTransport messageTransport user, []⟩
      es r) :
    (∀ e, r.world.neighbourTable.find p.hid = some e → ∃ b t,
      r.delivered.getLast? = some (b, t) ∧ b ∈ emitted ∧ e = Entry.ofBeacon b t none ∧
      (r.delivered.Pairwise (fun d d' => d.1.tick < d'.1.tick) →
        ∀ d ∈ r.delivered, d.1.tick ≤ b.tick)) ∧
    ∀ polled b rest, r.world.rxBeacons = polled ++ b :: rest → b.id = p.hid →
      (r.world.inboxAfter (some scheme) (polled ++ [b])).table.find p.hid
        = some (Entry.ofBeacon b r.world.context.elapsedTimeS none) := by
  have hI : ReceiverInv p emitted r := by
    refine hrun.invariant (I := ReceiverInv p emitted)
      (fun _ _ _ hI hst => hI.step hcorrect hsigns hst) ?_
    exact ⟨NeighbourTable.distinct_empty, hself, by rintro key ⟨⟩, by rintro b ⟨⟩, by rintro m ⟨⟩,
      by rintro d ⟨⟩, by rintro e ⟨⟩⟩
  constructor
  · intro e he
    obtain ⟨b, t, hlast, rfl⟩ := hI.entry e he
    exact ⟨b, t, hlast, hI.delivered _ (List.mem_of_getLast? hlast), rfl,
      fun hordered d hd => tick_le_getLast hordered hlast hd⟩
  · intro polled b rest hrx hb
    -- a polled beacon that names the sender is the sender's
    have hpolled : ∀ b' ∈ polled ++ [b], b'.id = p.hid → p.Signs scheme b' := by
      intro b' hb' hid
      refine hsigns b' (hI.beacons b' ?_ hid)
      rw [hrx]
      rcases List.mem_append.mp hb' with hbefore | hlast
      · exact List.mem_append_left _ hbefore
      · rw [List.mem_singleton.mp hlast]
        exact List.mem_append_right _ List.mem_cons_self
    rw [World.find_inboxAfter_sender hcorrect
      (fun polled => World.distinct_inboxAfter hI.distinct polled) hI.self hI.pinned hpolled,
      List.filter_append, List.filter_cons_of_pos (by simpa using hb), List.filter_nil,
      List.getLast?_concat]

end Invariant

/-! ### An old beacon, again -/

/-- A sender that moves along the x axis. -/
def movingSender : Sender where
  hid := ⟨2, ⟨Vector.replicate 16 2⟩⟩
  keypair := ⟨⟨Vector.replicate 32 7⟩, ⟨Vector.replicate 64 9⟩⟩

/-- Its beacon at tick `n`, at `n` metres. -/
def movingBeacon (n : ℕ) : StateVector ℚ :=
  ({ StateVector.empty with
      id := movingSender.hid
      position := ⟨n, 0, 0⟩
      tick := UInt32.ofNat n } : StateVector ℚ).signed (some stampScheme)
        (some movingSender.keypair)

/-- Its first two beacons. -/
def movingBeacons : List (StateVector ℚ) :=
  [movingBeacon 1, movingBeacon 2]

theorem movingBeacons_signs : ∀ b ∈ movingBeacons, movingSender.Signs stampScheme b := by
  intro b hb
  rcases List.mem_cons.mp hb with rfl | hb
  · exact ⟨rfl, _, rfl⟩
  · rw [List.mem_singleton.mp hb]
    exact ⟨rfl, _, rfl⟩

/-- A robot that hears it. -/
def hearingRobot : Receiver ℚ Unit where
  world := .init .default ⟨1, ⟨Vector.replicate 16 1⟩⟩ none [] (some ⟨true⟩) none ()
  delivered := []

/-- The robot after the beacons `bs`, each polled in a tick of its own. -/
def hearEach (bs : List (StateVector ℚ)) : Receiver ℚ Unit :=
  bs.foldl (fun r b => (r.arrive [b] []).tick stampScheme movingSender .beacon) hearingRobot

theorem hearEach_run (bs : List (StateVector ℚ)) (hbs : ∀ b ∈ bs, b ∈ movingBeacons) :
    ∃ es, Run (ReceiverStep stampScheme movingSender movingBeacons) hearingRobot es
      (hearEach bs) := by
  induction bs using List.reverseRecOn with
  | nil => exact ⟨[], Run.nil⟩
  | append_singleton bs b ih =>
    obtain ⟨es, hrun⟩ := ih fun b' hb' => hbs b' (List.mem_append_left _ hb')
    have hmem : b ∈ movingBeacons := hbs b (List.mem_append_right _ (List.mem_singleton_self b))
    have harrive := hrun.snoc (ReceiverStep.arrive (hearEach bs) [b] []
      (fun b' hb' _ => List.mem_singleton.mp hb' ▸ hmem) (by rintro m ⟨⟩))
    have htick := harrive.snoc (ReceiverStep.tick _ .beacon)
    have hlast : hearEach (bs ++ [b])
        = ((hearEach bs).arrive [b] []).tick stampScheme movingSender .beacon :=
      List.foldl_concat _ _ _ _
    exact ⟨_, hlast ▸ htick⟩

/-- In order, the entry is where the sender is. -/
theorem moving_beacons_in_order : ∃ e b t,
    (hearEach movingBeacons).world.neighbourTable.find movingSender.hid = some e ∧
      (hearEach movingBeacons).delivered.getLast? = some (b, t) ∧ b ∈ movingBeacons ∧
      e = Entry.ofBeacon b t none ∧
      ((hearEach movingBeacons).delivered.Pairwise (fun d d' => d.1.tick < d'.1.tick) →
        ∀ d ∈ (hearEach movingBeacons).delivered, d.1.tick ≤ b.tick) := by
  obtain ⟨es, hrun⟩ := hearEach_run movingBeacons fun b hb => hb
  have hheard : ((hearEach movingBeacons).world.neighbourTable.find movingSender.hid).isSome := by
    decide +kernel
  obtain ⟨e, he⟩ := Option.isSome_iff_exists.mp hheard
  obtain ⟨b, t, hlast⟩ := (entry_is_last_delivered movingSender (stampScheme_correct _) .default
    ⟨1, ⟨Vector.replicate 16 1⟩⟩ (by decide) none [] (some ⟨true⟩) none () movingBeacons
    movingBeacons_signs hrun).1 e he
  exact ⟨e, b, t, he, hlast⟩

/-- The second beacon, then the first once more. -/
theorem replayed_position :
    ((hearEach [movingBeacon 2, movingBeacon 1]).world.neighbourTable.find movingSender.hid).map
        (fun e => e.position) = some ⟨1, 0, 0⟩ ∧
      (hearEach [movingBeacon 2, movingBeacon 1]).delivered.map (fun d => d.1)
        = [movingBeacon 2, movingBeacon 1] := by
  decide +kernel

/-- **No protection against a replay.** Not in every run does the entry hold the fields of the
beacon with the largest tick that was delivered. -/
theorem replay_rewinds_entry :
    ¬ ∀ emitted : List (StateVector ℚ), (∀ b ∈ emitted, movingSender.Signs stampScheme b) →
      emitted.Pairwise (fun b b' => b.tick < b'.tick) →
      ∀ es r, Run (ReceiverStep stampScheme movingSender emitted) hearingRobot es r →
        ∀ e, r.world.neighbourTable.find movingSender.hid = some e →
          ∃ d ∈ r.delivered, (∀ d' ∈ r.delivered, d'.1.tick ≤ d.1.tick) ∧
            e.position = d.1.position ∧ e.velocity = d.1.velocity ∧ e.role = d.1.role ∧
            e.state = d.1.state ∧ e.syncTimeS = d.1.syncTimeS := by
  intro hclaim
  obtain ⟨es, hrun⟩ := hearEach_run [movingBeacon 2, movingBeacon 1] (by decide +kernel)
  obtain ⟨hentry, hdelivered⟩ := replayed_position
  obtain ⟨e, he, hposition⟩ := Option.map_eq_some_iff.mp hentry
  obtain ⟨d, hd, hlargest, hsame, -⟩ :=
    hclaim movingBeacons movingBeacons_signs (by decide +kernel) es _ hrun e he
  have hnewest : (movingBeacon 2).tick ≤ d.1.tick := by
    have hmem : movingBeacon 2 ∈ (hearEach [movingBeacon 2, movingBeacon 1]).delivered.map
        (fun d => d.1) := hdelivered ▸ List.mem_cons_self
    obtain ⟨d', hd', htick⟩ := List.mem_map.mp hmem
    exact htick ▸ hlargest d' hd'
  -- only the second beacon is that new, and it was sent from elsewhere
  have hmem : d.1 ∈ [movingBeacon 2, movingBeacon 1] := hdelivered ▸ List.mem_map_of_mem hd
  rcases List.mem_cons.mp hmem with hsecond | hfirst
  · rw [hsecond, hposition] at hsame
    exact absurd hsame (by decide +kernel)
  · rw [List.mem_singleton.mp hfirst] at hnewest
    exact absurd hnewest (by decide +kernel)

end MithAtomas
