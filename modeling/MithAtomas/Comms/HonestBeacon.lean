import MithAtomas.Comms.BeaconSystem

/-!
# Beacons of honest senders

What `BeaconSystem` does with a beacon that was signed as it signs its own. With a key pair that the
scheme signs correctly (`SignatureScheme.Correct`) such a beacon verifies (`verifies_signed`). If
the receiver has no pin for its id, or has pinned the sender's key, it goes into the table and is
not rejected (`receive_vouched`; in unsigned mode this is so in any case), and the only pin that can
appear is that of the beacon's own id and key (`find_receive_new`).

`foldl_receive_vouched` is a whole poll: `Bound hid key` stands for "this key belongs to this id",
and pins and beacons that respect one such binding never clash.
-/

namespace MithAtomas

open UdpWire

variable {F : Type} [FloatScalar F] {scheme : SignatureScheme}

/-- What is signed with the private key verifies under the public one. -/
def SignatureScheme.Correct (scheme : SignatureScheme) (kp : IdentityKeyPair) : Prop :=
  ∀ payload, scheme.verify kp.publicKey payload (scheme.sign kp.privateKey payload) = true

@[simp] theorem StateVector.senderPubkey_signed (kp : IdentityKeyPair) (sv : StateVector F) :
    (sv.signed (some scheme) (some kp)).senderPubkey = kp.publicKey := rfl

@[simp] theorem StateVector.id_signed (auth : Option SignatureScheme)
    (keypair : Option IdentityKeyPair) (sv : StateVector F) :
    (sv.signed auth keypair).id = sv.id := by
  unfold signed
  split <;> rfl

/-- **A beacon verifies as it was sent.** The signature is not among the bytes that are signed. -/
theorem StateVector.verifies_signed {kp : IdentityKeyPair} (h : scheme.Correct kp)
    (sv : StateVector F) : (sv.signed (some scheme) (some kp)).verifies scheme = true :=
  h _

/-- A scheme with one signature. -/
def stampScheme : SignatureScheme where
  sign := fun _ _ => Vector.replicate 64 1
  verify := fun _ _ signature => signature = Vector.replicate 64 1

theorem stampScheme_correct (kp : IdentityKeyPair) : stampScheme.Correct kp :=
  fun _ => rfl

namespace BeaconInbox

variable {selfId : HierarchicalID} {now : F} {inbox : BeaconInbox F} {b : StateVector F}

/-- The beacon verifies, and the registry holds no other key for its id. -/
structure Vouched (scheme : SignatureScheme) (keys : PeerKeyRegistry) (b : StateVector F) :
    Prop where
  verifies : b.verifies scheme = true
  pinned : ∀ key, keys.find b.id = some key → key = b.senderPubkey

/-- The pin of a key that does not clash succeeds. -/
theorem Vouched.tryPin_snd (h : Vouched scheme inbox.keys b) :
    (inbox.keys.tryPin b.id b.senderPubkey).2 = true := by
  cases hfind : inbox.keys.find b.id with
  | none =>
    unfold PeerKeyRegistry.tryPin
    rw [hfind]
  | some key =>
    rw [PeerKeyRegistry.tryPin_of_find hfind]
    exact decide_eq_true (h.pinned key hfind)

/-- **A vouched beacon goes into the table.** In unsigned mode, or without a key, it needs nobody to
vouch for it. -/
theorem receive_vouched {auth : Option SignatureScheme}
    (h : ∀ scheme, auth = some scheme → b.senderPubkey.present = true → Vouched scheme inbox.keys b)
    (hother : b.id ≠ selfId) :
    (receive auth selfId now inbox b).table = inbox.table.upsert b now none ∧
      (receive auth selfId now inbox b).rejectedBeacons = inbox.rejectedBeacons := by
  unfold receive
  rw [if_neg hother]
  cases auth with
  | none => exact ⟨rfl, rfl⟩
  | some scheme =>
    by_cases hpresent : b.senderPubkey.present = true
    · have hvouched := h scheme rfl hpresent
      simp only [hpresent, hvouched.verifies, hvouched.tryPin_snd, if_true]
      exact ⟨trivial, trivial⟩
    · simp only [hpresent, if_false, Bool.false_eq_true]
      exact ⟨trivial, trivial⟩

/-- The robot's own echo is skipped. -/
theorem receive_self (auth : Option SignatureScheme) (hself : b.id = selfId) :
    receive auth selfId now inbox b = inbox := by
  unfold receive
  rw [if_pos hself]

/-- A pin that one beacon has made is for its own id and key. -/
theorem find_receive_new {auth : Option SignatureScheme} {hid : HierarchicalID} {key : IdentityKey}
    (h : (receive auth selfId now inbox b).keys.find hid = some key) :
    inbox.keys.find hid = some key ∨ (hid = b.id ∧ key = b.senderPubkey) := by
  unfold receive at h
  split at h
  · exact .inl h
  · cases auth with
    | none => exact .inl h
    | some scheme =>
      simp only at h
      split at h
      · split at h
        · split at h <;> exact PeerKeyRegistry.find_tryPin_new h
        · exact .inl h
      · exact .inl h

/-! ### A whole poll -/

/-- What the registry has pinned respects the binding. -/
def PinsWithin (Bound : HierarchicalID → IdentityKey → Prop) (keys : PeerKeyRegistry) : Prop :=
  ∀ hid key, keys.find hid = some key → Bound hid key

variable {Bound : HierarchicalID → IdentityKey → Prop}

theorem PinsWithin.receive (h : PinsWithin Bound inbox.keys) (hb : Bound b.id b.senderPubkey)
    (auth : Option SignatureScheme) :
    PinsWithin Bound (BeaconInbox.receive auth selfId now inbox b).keys := by
  intro hid key hfind
  rcases find_receive_new hfind with hold | ⟨rfl, rfl⟩
  · exact h hid key hold
  · exact hb

/-- **Honest beacons are all accepted.** If every id heard has one key, which its beacons carry, and
the beacons verify, then the loop upserts every beacon that is not an echo, in order, and rejects
none. -/
theorem foldl_receive_vouched (auth : Option SignatureScheme) (selfId : HierarchicalID) (now : F)
    (inbox : BeaconInbox F) {polled : List (StateVector F)}
    (hverifies : ∀ b ∈ polled, ∀ scheme, auth = some scheme → b.senderPubkey.present = true →
      b.verifies scheme = true)
    (hbound : ∀ b ∈ polled, ∀ key, Bound b.id key ↔ key = b.senderPubkey)
    (hpins : PinsWithin Bound inbox.keys) :
    (polled.foldl (receive auth selfId now) inbox).table
        = (polled.filter fun b => b.id ≠ selfId).foldl (fun t b => t.upsert b now none)
          inbox.table ∧
      (polled.foldl (receive auth selfId now) inbox).rejectedBeacons = inbox.rejectedBeacons ∧
      PinsWithin Bound (polled.foldl (receive auth selfId now) inbox).keys := by
  induction polled generalizing inbox with
  | nil => exact ⟨rfl, rfl, hpins⟩
  | cons b polled ih =>
    have hkey := hbound b List.mem_cons_self
    have hpins' : PinsWithin Bound (receive auth selfId now inbox b).keys :=
      hpins.receive ((hkey b.senderPubkey).mpr rfl) auth
    have hrest := ih _ (fun b' hb' => hverifies b' (List.mem_cons_of_mem _ hb'))
      (fun b' hb' => hbound b' (List.mem_cons_of_mem _ hb')) hpins'
    rw [List.foldl_cons]
    -- an own beacon is skipped; any other is vouched for, so it is stored
    by_cases hself : b.id = selfId
    · rw [receive_self auth hself] at hrest ⊢
      rw [List.filter_cons_of_neg (by simpa using hself)]
      exact hrest
    · have hvouched : ∀ scheme, auth = some scheme → b.senderPubkey.present = true →
          Vouched scheme inbox.keys b := fun scheme hscheme hpresent =>
        ⟨hverifies b List.mem_cons_self scheme hscheme hpresent,
          fun key hfind => (hkey key).mp (hpins b.id key hfind)⟩
      rw [List.filter_cons_of_pos (by simpa using hself), List.foldl_cons]
      rw [(receive_vouched hvouched hself).1, (receive_vouched hvouched hself).2] at hrest
      exact hrest

end BeaconInbox

end MithAtomas
