import MithAtomas.Comms.HonestBeacon
import MithAtomas.Core.BeaconTick
import MithAtomas.Core.WorldFootprint
import MithAtomas.Framework.Runs

/-!
# Trust on first use

What signed mode promises about the neighbour table. The robot runs on an open medium: the beacons
and messages that arrive are arbitrary (`WorldEvent.arrive`), and between them the shipped systems
tick in any order, `BeaconSystem` with `DiscoverySystem`'s handler among them.

A pin stays (`EventStep.pin_stays`), and the entry of a pinned peer changes only when a beacon with
that id goes into the table (`CausedBy`): one that carries the pinned key and verifies under it, or
one that carries no key at all. The second is let through on purpose, for peers that do not sign,
so a key that is pinned does not keep such a beacon away from its owner's entry
(`unsigned_beacon_moves_pinned_peer`).

`EventStep.change` is one step, `World.change_inboxAfter` one beacon within a tick; both rest on
`World.mem_inboxAfter`, by induction on the beacons polled. That a peer has one entry
(`NeighbourTable.Distinct`) is what makes a change of the table a change of *the* entry.
-/

namespace MithAtomas

open Runs

variable {F U : Type} [FloatScalar F] {scheme : SignatureScheme}

/-! ### The loop over the beacons polled -/

namespace BeaconInbox

variable {selfId : HierarchicalID} {now : F} {inbox : BeaconInbox F}

/-- **One beacon makes one entry**, its own, and if its id is pinned it has been accepted. -/
theorem mem_receive {b : StateVector F} {entry : Entry F}
    (h : entry ∈ (receive (some scheme) selfId now inbox b).table.entries) :
    entry ∈ inbox.table.entries ∨ (entry = Entry.ofBeacon b now none ∧
      ∀ key, inbox.keys.find b.id = some key → Accepts scheme key b) := by
  rcases table_receive scheme selfId now inbox b with
    hstay | ⟨hupsert, haccepts⟩
  · rw [hstay] at h
    exact .inl h
  · rw [hupsert] at h
    rcases NeighbourTable.mem_upsert h with hold | hnew
    · exact .inl hold
    · exact .inr ⟨hnew, haccepts⟩

end BeaconInbox

namespace World

variable {w : World F U}

theorem find_inboxAfter {hid : HierarchicalID} {key : IdentityKey}
    (h : w.peerKeys.find hid = some key) (polled : List (StateVector F)) :
    (w.inboxAfter (some scheme) polled).keys.find hid = some key :=
  List.foldlRecOn (motive := fun inbox : BeaconInbox F => inbox.keys.find hid = some key) polled _ h
    fun _ ih b _ => BeaconInbox.find_receive ih b

/-- **The whole loop**: an entry was there, or one of the beacons has made it. -/
theorem mem_inboxAfter {polled : List (StateVector F)} {entry : Entry F}
    (h : entry ∈ (w.inboxAfter (some scheme) polled).table.entries) :
    entry ∈ w.neighbourTable.entries ∨
      ∃ b ∈ polled, entry = Entry.ofBeacon b w.context.elapsedTimeS none ∧
        ∀ key, w.peerKeys.find b.id = some key → BeaconInbox.Accepts scheme key b := by
  induction polled using List.reverseRecOn with
  | nil => exact .inl (NeighbourTable.mem_ageOut h)
  | append_singleton polled b ih =>
    have hlast : w.inboxAfter (some scheme) (polled ++ [b])
        = BeaconInbox.receive (some scheme) w.identity w.context.elapsedTimeS
          (w.inboxAfter (some scheme) polled) b := List.foldl_concat _ _ _ _
    rw [hlast] at h
    rcases BeaconInbox.mem_receive h with hold | ⟨hnew, haccepts⟩
    · rcases ih hold with hin | ⟨b', hb', hcause⟩
      · exact .inl hin
      · exact .inr ⟨b', List.mem_append_left _ hb', hcause⟩
    · refine .inr ⟨b, List.mem_append_right _ (List.mem_singleton_self b), hnew, ?_⟩
      -- what is pinned when the tick begins is pinned when `b` has its turn
      exact fun key hkey => haccepts key (find_inboxAfter hkey polled)

end World

/-! ### `BeaconSystem`'s tick -/

namespace World

variable {w : World F U}

theorem find_beaconTick {hid : HierarchicalID} {key : IdentityKey}
    (h : w.peerKeys.find hid = some key) :
    (w.beaconTick (some scheme)).peerKeys.find hid = some key :=
  peerKeys_beaconTick_invariant (I := fun keys : PeerKeyRegistry => keys.find hid = some key)
    (fun b _ _ h => BeaconInbox.find_receive h b)
    (fun m _ _ _ h => DiscoverySystem.find_pinAdvertised h m) h

end World

/-! ### Runs on an open medium -/

/-- What happens to a robot. -/
inductive WorldEvent (F : Type) where
  /-- the medium delivers whatever somebody has put on it -/
  | arrive (beacons : List (StateVector F)) (messages : List (Message F))
  | tick (s : ShippedSystem)
  /-- the clock, an identity rotation, the mission's own systems -/
  | other

/-- One event in the life of a robot in signed mode. Entries and pins are the shipped systems' to
change. -/
inductive EventStep (scheme : SignatureScheme) :
    World F U → WorldEvent F → World F U → Prop
  | arrive (w : World F U) (beacons : List (StateVector F)) (messages : List (Message F)) :
      EventStep scheme w (.arrive beacons messages)
        { w with rxBeacons := w.rxBeacons ++ beacons, rxMessages := w.rxMessages ++ messages }
  | tick (w : World F U) (s : ShippedSystem) :
      EventStep scheme w (.tick s) (s.tick (some scheme) w)
  | other {w w' : World F U} (hentries : w'.neighbourTable.entries = w.neighbourTable.entries)
      (hkeys : w'.peerKeys = w.peerKeys) : EventStep scheme w .other w'

/-- The beacon `b` has made the entry of the peer `hid`, which is pinned to `key`. -/
structure CausedBy (scheme : SignatureScheme) (key : IdentityKey) (hid : HierarchicalID) (now : F)
    (b : StateVector F) (entry : Entry F) : Prop where
  id : b.id = hid
  /-- every field of the entry is the beacon's, and the time is now -/
  entry_eq : entry = Entry.ofBeacon b now none
  accepts : BeaconInbox.Accepts scheme key b

namespace EventStep

variable {w w' : World F U} {e : WorldEvent F} {hid : HierarchicalID} {key : IdentityKey}

/-- All but `BeaconSystem`'s ticks leave entries and pins alone. -/
theorem frame (h : EventStep scheme w e w') (he : e ≠ .tick .beacon) :
    w'.neighbourTable.entries = w.neighbourTable.entries ∧ w'.peerKeys = w.peerKeys := by
  cases h with
  | arrive => exact ⟨rfl, rfl⟩
  | tick s =>
    have htable : Cell.neighbourTable ∉ s.touchesWrites ∧ Cell.peerKeys ∉ s.touchesWrites := by
      cases s with
      | beacon => exact absurd rfl he
      | _ => decide
    have hkeep : (s.tick (some scheme) w).neighbourTable = w.neighbourTable :=
      s.tick_frame w htable.1
    exact ⟨congrArg NeighbourTable.entries hkeep, s.tick_frame w htable.2⟩
  | other hentries hkeys => exact ⟨hentries, hkeys⟩

/-- **A pin stays**, whatever happens. -/
theorem pin_stays (h : EventStep scheme w e w') (hpin : w.peerKeys.find hid = some key) :
    w'.peerKeys.find hid = some key := by
  by_cases he : e = .tick .beacon
  · subst he
    cases h
    exact World.find_beaconTick hpin
  · rw [(h.frame he).2]
    exact hpin

theorem distinct (h : EventStep scheme w e w') (hdistinct : w.neighbourTable.Distinct) :
    w'.neighbourTable.Distinct := by
  by_cases he : e = .tick .beacon
  · subst he
    cases h
    show (w.beaconTick (some scheme)).neighbourTable.Distinct
    rw [World.neighbourTable_beaconTick]
    split
    · exact World.distinct_inboxAfter hdistinct _
    · exact hdistinct.ageOut _ _
  · unfold NeighbourTable.Distinct
    rw [(h.frame he).1]
    exact hdistinct

/-- **One event.** If it changes the entry of a pinned peer, then it is a tick of `BeaconSystem`,
and one of the beacons that have arrived is the cause. -/
theorem change (h : EventStep scheme w e w') (hdistinct : w.neighbourTable.Distinct)
    (hpin : w.peerKeys.find hid = some key) {entry : Entry F}
    (hafter : w'.neighbourTable.find hid = some entry)
    (hchange : w.neighbourTable.find hid ≠ some entry) :
    e = .tick .beacon ∧
      ∃ b ∈ w.rxBeacons, CausedBy scheme key hid w.context.elapsedTimeS b entry := by
  obtain ⟨hmem, hhid⟩ := (h.distinct hdistinct).find_iff.mp hafter
  -- the entry is not an old one, so the tick has stored it
  have hnew : entry ∉ w.neighbourTable.entries := by
    intro hold
    exact hchange (hdistinct.find_iff.mpr ⟨hold, hhid⟩)
  by_cases he : e = .tick .beacon
  · refine ⟨he, ?_⟩
    subst he
    cases h
    change entry ∈ (w.beaconTick (some scheme)).neighbourTable.entries at hmem
    rw [World.neighbourTable_beaconTick] at hmem
    split at hmem
    · obtain ⟨b, hb, hentry, haccepts⟩ := (World.mem_inboxAfter hmem).resolve_left hnew
      have hid_eq : b.id = hid := by
        rw [hentry] at hhid
        exact hhid
      exact ⟨b, hb, hid_eq, hentry, haccepts key (hid_eq ▸ hpin)⟩
    · exact absurd (NeighbourTable.mem_ageOut hmem) hnew
  · -- no other event stores an entry
    rw [(h.frame he).1] at hmem
    exact absurd hmem hnew

end EventStep

/-- **One beacon within a tick**, and what is pinned when its turn comes. -/
theorem World.change_inboxAfter {w : World F U} (hdistinct : w.neighbourTable.Distinct)
    {hid : HierarchicalID} {key : IdentityKey} {polled : List (StateVector F)} {b : StateVector F}
    (hpin : (w.inboxAfter (some scheme) polled).keys.find hid = some key) {entry : Entry F}
    (hafter : (w.inboxAfter (some scheme) (polled ++ [b])).table.find hid = some entry)
    (hchange : (w.inboxAfter (some scheme) polled).table.find hid ≠ some entry) :
    CausedBy scheme key hid w.context.elapsedTimeS b entry := by
  have hbefore : (w.inboxAfter (some scheme) polled).table.Distinct :=
    distinct_inboxAfter hdistinct polled
  obtain ⟨hmem, hhid⟩ := (distinct_inboxAfter hdistinct _).find_iff.mp hafter
  have hnew : entry ∉ (w.inboxAfter (some scheme) polled).table.entries := by
    intro hold
    exact hchange (hbefore.find_iff.mpr ⟨hold, hhid⟩)
  have hlast : w.inboxAfter (some scheme) (polled ++ [b])
      = BeaconInbox.receive (some scheme) w.identity w.context.elapsedTimeS
        (w.inboxAfter (some scheme) polled) b := List.foldl_concat _ _ _ _
  rw [hlast] at hmem
  obtain ⟨hentry, haccepts⟩ := (BeaconInbox.mem_receive hmem).resolve_left hnew
  have hid_eq : b.id = hid := by
    rw [hentry] at hhid
    exact hhid
  exact ⟨hid_eq, hentry, haccepts key (hid_eq ▸ hpin)⟩

/-- **What a pin is good for.** In every run of a robot in signed mode, from its first state on:
once a key is pinned for a peer it stays pinned; every later change of the peer's entry is a tick of
`BeaconSystem` that has polled a beacon with the peer's id, and the beacon carries the pinned key
and verifies under it, or carries no key; and within a tick the same holds of each beacon in its
turn. -/
theorem pinned_entry_changes (config : WorldConfig F) (identity : HierarchicalID)
    (keypair : Option IdentityKeyPair) (handlers : List MessageHandler)
    (beaconTransport messageTransport : Option Channel) (user : U) {es : List (WorldEvent F)}
    {w : World F U} (hrun : Run (EventStep scheme)
      (World.init config identity keypair handlers beaconTransport messageTransport user) es w) :
    (∀ hid key, w.peerKeys.find hid = some key → ∀ es' w', Run (EventStep scheme) w es' w' →
      w'.peerKeys.find hid = some key ∧
      ∀ e w'' entry, EventStep scheme w' e w'' → w''.neighbourTable.find hid = some entry →
        w'.neighbourTable.find hid ≠ some entry →
        e = .tick .beacon ∧
          ∃ b ∈ w'.rxBeacons, CausedBy scheme key hid w'.context.elapsedTimeS b entry) ∧
    (∀ polled b rest, w.rxBeacons = polled ++ b :: rest → ∀ hid key entry,
      (w.inboxAfter (some scheme) polled).keys.find hid = some key →
      (w.inboxAfter (some scheme) (polled ++ [b])).table.find hid = some entry →
      (w.inboxAfter (some scheme) polled).table.find hid ≠ some entry →
      CausedBy scheme key hid w.context.elapsedTimeS b entry) := by
  have hstart : w.neighbourTable.Distinct :=
    hrun.invariant (I := fun w => w.neighbourTable.Distinct) (fun _ _ _ hd h => h.distinct hd)
      NeighbourTable.distinct_empty
  constructor
  · intro hid key hpin es' w' hrun'
    have hdistinct : w'.neighbourTable.Distinct :=
      hrun'.invariant (I := fun w => w.neighbourTable.Distinct) (fun _ _ _ hd h => h.distinct hd)
        hstart
    -- a pin stays, so it is there in every later state
    have hpin' : w'.peerKeys.find hid = some key :=
      hrun'.invariant (I := fun w => w.peerKeys.find hid = some key)
        (fun _ _ _ hp h => h.pin_stays hp) hpin
    exact ⟨hpin', fun e w'' entry hstep hafter hchange =>
      hstep.change hdistinct hpin' hafter hchange⟩
  · intro polled b rest _ hid key entry hpin hafter hchange
    exact World.change_inboxAfter hstart hpin hafter hchange

/-! ### A peer that signs, and somebody who does not -/

/-- A robot that has just been started, in signed mode. -/
def listeningWorld : World ℚ Unit :=
  .init .default ⟨1, .nil⟩ none [.discovery] (some ⟨true⟩) (some ⟨true⟩) ()

def signingPeer : HierarchicalID := ⟨2, .nil⟩

def signingPeerKey : IdentityKey := ⟨Vector.replicate 32 7⟩

/-- What the peer sends. -/
def signedBeacon : StateVector ℚ :=
  { StateVector.empty with
    id := signingPeer
    senderPubkey := signingPeerKey
    signature := Vector.replicate 64 1 }

/-- What anybody can send: the peer's id, another position, no key. -/
def unsignedBeacon : StateVector ℚ :=
  { StateVector.empty with id := signingPeer, position := ⟨999, 0, 0⟩ }

/-- The peer has been heard, and pinned. -/
def pinnedWorld : World ℚ Unit :=
  ShippedSystem.beacon.tick (some stampScheme) { listeningWorld with rxBeacons := [signedBeacon] }

theorem pinnedWorld_run : Run (EventStep stampScheme) listeningWorld
    [.arrive [signedBeacon] [], .tick .beacon] pinnedWorld :=
  Run.snoc (Run.single (EventStep.arrive listeningWorld [signedBeacon] []))
    (EventStep.tick _ ShippedSystem.beacon)

/-- **A pin does not keep an unsigned beacon out.** The peer's key is pinned, and then its entry is
changed by a tick that has polled no beacon with that key. -/
theorem unsigned_beacon_moves_pinned_peer : ∃ (es : List (WorldEvent ℚ)) (w w' : World ℚ Unit),
    Run (EventStep stampScheme) listeningWorld es w ∧
    pinnedWorld.peerKeys.find signingPeer = some signingPeerKey ∧
    Run (EventStep stampScheme) pinnedWorld [.arrive [unsignedBeacon] []] w ∧
    EventStep stampScheme w (.tick .beacon) w' ∧
    w.neighbourTable.find signingPeer = some (Entry.ofBeacon signedBeacon 0 none) ∧
    w'.neighbourTable.find signingPeer = some (Entry.ofBeacon unsignedBeacon 0 none) ∧
    ¬ ∃ b ∈ w.rxBeacons, b.senderPubkey = signingPeerKey ∧ b.verifies stampScheme = true := by
  have hrun : Run (EventStep stampScheme) pinnedWorld [.arrive [unsignedBeacon] []]
      { pinnedWorld with rxBeacons := [unsignedBeacon] } :=
    Run.single (EventStep.arrive pinnedWorld [unsignedBeacon] [])
  refine ⟨_, _, _, pinnedWorld_run.trans hrun, by decide +kernel, hrun, EventStep.tick _ _,
    by decide +kernel, by decide +kernel, ?_⟩
  rintro ⟨b, hb, hkey, -⟩
  obtain rfl := List.mem_singleton.mp hb
  exact absurd hkey (by decide)

/-- What the peer sends from somewhere else. -/
def laterBeacon : StateVector ℚ :=
  { signedBeacon with tick := 2, position := ⟨12, 0, 0⟩ }

/-- The peer is heard again: the entry changes, and its beacon is the cause. -/
theorem pinnedWorld_entry_changes : ∃ w w' : World ℚ Unit,
    Run (EventStep stampScheme) pinnedWorld [.arrive [laterBeacon] []] w ∧
    EventStep stampScheme w (.tick .beacon) w' ∧
    w.neighbourTable.find signingPeer = some (Entry.ofBeacon signedBeacon 0 none) ∧
    w'.neighbourTable.find signingPeer = some (Entry.ofBeacon laterBeacon 0 none) ∧
    w.peerKeys.find signingPeer = some signingPeerKey ∧
    CausedBy stampScheme signingPeerKey signingPeer 0 laterBeacon
      (Entry.ofBeacon laterBeacon 0 none) := by
  have hpin : pinnedWorld.peerKeys.find signingPeer = some signingPeerKey := by decide +kernel
  have hrun : Run (EventStep stampScheme) pinnedWorld [.arrive [laterBeacon] []]
      { pinnedWorld with rxBeacons := [laterBeacon] } :=
    Run.single (EventStep.arrive pinnedWorld [laterBeacon] [])
  obtain ⟨hkeep, hchange⟩ := (pinned_entry_changes .default ⟨1, .nil⟩ none [.discovery]
    (some ⟨true⟩) (some ⟨true⟩) () pinnedWorld_run).1 signingPeer signingPeerKey hpin _ _ hrun
  have hstep : EventStep stampScheme { pinnedWorld with rxBeacons := [laterBeacon] } (.tick .beacon)
      _ := EventStep.tick _ ShippedSystem.beacon
  obtain ⟨-, b, hb, hcause⟩ := hchange _ _ (Entry.ofBeacon laterBeacon 0 none) hstep
    (by decide +kernel) (by decide +kernel)
  obtain rfl := List.mem_singleton.mp hb
  exact ⟨_, _, hrun, hstep, by decide +kernel, by decide +kernel, hkeep, hcause⟩

end MithAtomas
