import MithAtomas.Identity.SignatureScheme
import MithAtomas.TweetNacl.Sign

/-!
# Ed25519

`src/identity/ed25519.cpp`: detached signatures over those of TweetNaCl, which have the message
behind them, and the verifier with its table of peers. A null pointer is `none`.

`ed25519` is the scheme, on payloads of any length, and `signPayload_eq` and `verifySignature_spec`
say that the code computes it. A verifier answers by the first key that was ever added for an id
(`Ed25519IdentityVerifier.verify_registered`).
-/

namespace MithAtomas

open CheckedLoop TweetNacl

/-- `generate_identity_keypair`, where `seed` is what `randombytes` gives. -/
def generateIdentityKeypair (seed : Vector UInt8 32) : Option IdentityKeyPair := do
  let (pk, sk) ← cryptoSignKeypair seed
  pure ⟨⟨pk⟩, ⟨sk⟩⟩

/-- `sign_payload` -/
def signPayload (sk : IdentityPrivateKey) (payload : List UInt8) : Option Signature := do
  let sm ← cryptoSign payload sk.bytes
  bytesAt sm 0

/-- A copy of `n` bytes. -/
def copyBytes (p : List UInt8) (n : ℕ) : Option (List UInt8) :=
  if n ≤ p.length then some (p.take n) else none

/-- `verify_signature` -/
def verifySignature (pk : IdentityKey) (payload : Option (List UInt8)) (payloadSize : ℕ)
    (signature : Option (List UInt8)) (signatureSize : ℕ) : Option Bool :=
  if signatureSize ≠ 64 then pure false
  else if 0 < payloadSize ∧ payload = none then pure false
  else match signature with
    | none => pure false
    | some signature => do
      let front ← copyBytes signature 64
      let back ← copyBytes (payload.getD []) payloadSize
      let m ← cryptoSignOpen (front ++ back) pk.publicKey
      pure m.isSome

/-! ### The scheme -/

/-- What the code signs and verifies. -/
noncomputable def ed25519 : SignatureScheme where
  sign := fun sk payload => TweetNacl.signature sk.bytes payload
  verify := fun pk payload signature =>
    open Classical in
    decide (Verifies pk.publicKey (firstHalf signature) (lastHalf signature) payload)

theorem verify_iff {pk : IdentityKey} {payload : List UInt8} {signature : Signature} :
    ed25519.verify pk payload signature = true ↔
      Verifies pk.publicKey (firstHalf signature) (lastHalf signature) payload := by
  classical
  exact decide_eq_true_iff

theorem signPayload_eq_sign (sk : IdentityPrivateKey) {payload : List UInt8}
    (h : payload.length + 64 < 2 ^ 64) :
    signPayload sk payload = some (ed25519.sign sk payload) := by
  apply Ensures.eq_some
  refine .after (cryptoSign_eq h sk.bytes) ⟨_, ?_, rfl⟩
  exact bytesAt_zero rfl

/-- **Signing** gives the hash's commitment and the response to the challenge, for any bytes of a
private key: the code drops the message that TweetNaCl puts behind them. -/
theorem signPayload_eq (sk : IdentityPrivateKey) {payload : List UInt8}
    (h : payload.length + 64 < 2 ^ 64) :
    signPayload sk payload =
      some (joined (encodePoint (nonce sk.bytes.toList payload • basePoint))
        (scalarBytes (response sk.bytes payload))) :=
  signPayload_eq_sign sk h

theorem signPayload_abc : abc.length + 64 < 2 ^ 64 ∧
    signPayload ⟨Vector.replicate 64 3⟩ abc =
      some (joined (encodePoint (nonce (Vector.replicate 64 3).toList abc • basePoint))
        (scalarBytes (response (Vector.replicate 64 3) abc))) :=
  ⟨by decide, signPayload_eq ⟨Vector.replicate 64 3⟩ (by decide)⟩

/-- The opening of a signature and a payload. -/
theorem cryptoSignOpen_isSome (pk : IdentityKey) {payload : List UInt8}
    (h : payload.length + 64 < 2 ^ 31) (signature : Signature) :
    Ensures (cryptoSignOpen (signature.toList ++ payload) pk.publicKey) fun r =>
      r.isSome = ed25519.verify pk payload signature := by
  have hparts : signature.toList ++ payload =
      (firstHalf signature).toList ++ ((lastHalf signature).toList ++ payload) := by
    rw [toList_halves, List.append_assoc]
  have hlength : (signature.toList ++ payload).length < 2 ^ 31 := by
    rw [List.length_append, Vector.length_toList]
    omega
  refine (cryptoSignOpen_spec hlength pk.publicKey).mono fun r hr => Bool.eq_iff_iff.mpr ?_
  rw [Option.isSome_iff_exists, verify_iff]
  constructor
  · rintro ⟨m, hm⟩
    obtain ⟨t, s, heq, hverifies⟩ := (hr m).mp hm
    rw [hparts] at heq
    obtain ⟨ht, hrest⟩ := List.append_inj heq (by simp)
    obtain ⟨hs, rfl⟩ := List.append_inj hrest (by simp)
    rwa [Vector.toList_inj.mp ht, Vector.toList_inj.mp hs]
  · exact fun hverifies => ⟨payload, (hr payload).mpr ⟨_, _, hparts, hverifies⟩⟩

theorem copyBytes_of_le {p : List UInt8} {n : ℕ} (h : n ≤ p.length) :
    copyBytes p n = some (p.take n) :=
  if_pos h

/-- **Verifying**, whatever the sizes and the pointers are: the signature has its 64 bytes, only an
empty payload may be null, and the scheme accepts. -/
theorem verifySignature_spec (pk : IdentityKey) {payload signature : Option (List UInt8)}
    {payloadSize signatureSize : ℕ} (h : payloadSize + 64 < 2 ^ 31)
    (hpayload : ∀ p, payload = some p → payloadSize ≤ p.length)
    (hsignature : ∀ p, signature = some p → signatureSize ≤ p.length) :
    Ensures (verifySignature pk payload payloadSize signature signatureSize) fun b => b = true ↔
      signatureSize = 64 ∧ (payload = none → payloadSize = 0) ∧
        ∃ p s, signature = some p ∧ p.take 64 = Vector.toList s ∧
          ed25519.verify pk ((payload.getD []).take payloadSize) s = true := by
  unfold verifySignature
  split
  · -- a signature of another size
    next hsize => exact ensures_pure.mpr ⟨nofun, fun h => absurd h.1 hsize⟩
  next hsize =>
  split
  · -- no payload, but a size
    next hnull =>
    refine ensures_pure.mpr ⟨nofun, fun h => ?_⟩
    have hzero := h.2.1 hnull.2
    omega
  next hnull =>
  have hnull' : payload = none → payloadSize = 0 := fun hnone => by
    by_contra hne
    exact hnull ⟨Nat.pos_of_ne_zero hne, hnone⟩
  cases signature with
  | none =>
    refine ensures_pure.mpr ⟨nofun, ?_⟩
    rintro ⟨-, -, p, s, ⟨⟩, -⟩
  | some p =>
    have hlength : 64 ≤ p.length := by
      have hp := hsignature p rfl
      omega
    -- both copies stay inside what the caller has
    have hback : payloadSize ≤ (payload.getD []).length := by
      cases payload with
      | none => exact (hnull' rfl).le
      | some q => exact hpayload q rfl
    obtain ⟨s, hs⟩ : ∃ s : Signature, p.take 64 = s.toList :=
      ⟨⟨(p.take 64).toArray, by simp [hlength]⟩, rfl⟩
    refine .after (copyBytes_of_le hlength) (.after (copyBytes_of_le hback) ?_)
    rw [hs]
    have htake : ((payload.getD []).take payloadSize).length + 64 < 2 ^ 31 := by
      rw [List.length_take]
      omega
    refine (cryptoSignOpen_isSome pk htake s).bind fun r hr => ensures_pure.mpr ?_
    rw [hr]
    constructor
    · exact fun hverify => ⟨not_not.mp hsize, hnull', p, s, rfl, hs, hverify⟩
    · rintro ⟨-, -, p', s', hp, hs', hverify⟩
      rw [← Option.some.inj hp, hs] at hs'
      rwa [Vector.toList_inj.mp hs']

theorem generateIdentityKeypair_spec (seed : Vector UInt8 32) :
    Ensures (generateIdentityKeypair seed) fun kp =>
      kp.publicKey.publicKey =
        encodePoint (secret seed.toList • basePoint) ∧
      kp.privateKey.bytes = joined seed kp.publicKey.publicKey := by
  unfold generateIdentityKeypair
  refine (cryptoSignKeypair_spec seed).bind ?_
  rintro ⟨pk, sk⟩ ⟨hpk, hsk⟩
  exact ensures_pure.mpr ⟨hpk, hsk⟩

/-- **What a generated key pair signs verifies**, for every payload. -/
theorem verify_sign {seed : Vector UInt8 32} {kp : IdentityKeyPair}
    (h : generateIdentityKeypair seed = some kp) (payload : List UInt8) :
    ed25519.verify kp.publicKey payload (ed25519.sign kp.privateKey payload) = true := by
  obtain ⟨kp', hkp, hpk, hsk⟩ := generateIdentityKeypair_spec seed
  obtain rfl : kp' = kp := Option.some.inj (hkp.symm.trans h)
  have hverifies := verifies_signature seed hpk payload
  rw [← hsk] at hverifies
  rw [verify_iff]
  show Verifies _ (firstHalf (TweetNacl.signature _ _)) (lastHalf (TweetNacl.signature _ _)) _
  rw [TweetNacl.signature, firstHalf_joined, lastHalf_joined]
  exact hverifies

/-- **A pair verifies what it signs.** Any seed gives a key pair, and what its private key signs is
accepted under its public key and no other bytes than these of the payload are read. -/
theorem verifySignature_signPayload (seed : Vector UInt8 32) {payload : List UInt8}
    (h : payload.length + 64 < 2 ^ 31) (behind : List UInt8) :
    (do
      let kp ← generateIdentityKeypair seed
      let s ← signPayload kp.privateKey payload
      verifySignature kp.publicKey (some (payload ++ behind)) payload.length (some s.toList) 64) =
        some true := by
  obtain ⟨kp, hkp, -⟩ := generateIdentityKeypair_spec seed
  obtain ⟨s, hs⟩ : ∃ s, ed25519.sign kp.privateKey payload = s := ⟨_, rfl⟩
  have hsign : signPayload kp.privateKey payload = some (ed25519.sign kp.privateKey payload) :=
    signPayload_eq_sign kp.privateKey (by omega)
  have hverify := verify_sign hkp payload
  rw [hs] at hsign hverify
  refine Ensures.eq_some (.after hkp (.after hsign ?_))
  have hlength : ∀ p, some (payload ++ behind) = some p → payload.length ≤ p.length := by
    rintro _ ⟨⟩
    rw [List.length_append]
    exact Nat.le_add_right _ _
  have hsignature : ∀ p, some s.toList = some p → 64 ≤ p.length := by
    rintro _ ⟨⟩
    exact s.length_toList.ge
  refine (verifySignature_spec kp.publicKey h hlength hsignature).mono fun b hb => ?_
  refine hb.mpr ⟨rfl, nofun, _, s, rfl, List.take_of_length_le s.length_toList.le, ?_⟩
  rw [Option.getD_some, List.take_left]
  exact hverify

theorem verifySignature_signPayload_abc : abc.length + 64 < 2 ^ 31 ∧
    (do
      let kp ← generateIdentityKeypair (Vector.replicate 32 9)
      let s ← signPayload kp.privateKey abc
      verifySignature kp.publicKey (some (abc ++ [4])) abc.length (some s.toList) 64) = some true :=
  ⟨by decide, verifySignature_signPayload (Vector.replicate 32 9) (by decide) [4]⟩

/-- **What is accepted**, whatever the pointers and the sizes: a signature of 64 bytes whose
equation on the curve holds, on a payload that is null only where it is empty. There is always an
answer. -/
theorem verifySignature_iff (pk : IdentityKey) {payload signature : Option (List UInt8)}
    {payloadSize signatureSize : ℕ} (h : payloadSize + 64 < 2 ^ 31)
    (hpayload : ∀ p, payload = some p → payloadSize ≤ p.length)
    (hsignature : ∀ p, signature = some p → signatureSize ≤ p.length) :
    ∃ b, verifySignature pk payload payloadSize signature signatureSize = some b ∧ (b = true ↔
      signatureSize = 64 ∧ (payload = none → payloadSize = 0) ∧
        ∃ p, ∃ t s : Vector UInt8 32, signature = some p ∧ p.take 64 = t.toList ++ s.toList ∧
          Verifies pk.publicKey t s ((payload.getD []).take payloadSize)) := by
  obtain ⟨b, hb, hiff⟩ := verifySignature_spec pk h hpayload hsignature
  refine ⟨b, hb, hiff.trans ?_⟩
  refine and_congr_right fun _ => and_congr_right fun _ => ?_
  constructor
  · rintro ⟨p, s, hp, htake, hverify⟩
    exact ⟨p, _, _, hp, htake.trans (toList_halves s), verify_iff.mp hverify⟩
  · rintro ⟨p, t, s, hp, htake, hverifies⟩
    refine ⟨p, joined t s, hp, htake.trans (toList_joined t s).symm, verify_iff.mpr ?_⟩
    rwa [firstHalf_joined, lastHalf_joined]

/-- An honest signature is accepted, for its equation holds. -/
theorem verifySignature_iff_abc : ∃ kp s,
    generateIdentityKeypair (Vector.replicate 32 9) = some kp ∧
    signPayload kp.privateKey abc = some s ∧
    verifySignature kp.publicKey (some abc) 3 (some s.toList) 64 = some true := by
  obtain ⟨kp, hkp, -⟩ := generateIdentityKeypair_spec (Vector.replicate 32 9)
  obtain ⟨s, hs⟩ : ∃ s, ed25519.sign kp.privateKey abc = s := ⟨_, rfl⟩
  have hverify := verify_sign hkp abc
  rw [hs] at hverify
  have hpayload : ∀ p, some abc = some p → 3 ≤ p.length := by
    rintro _ ⟨⟩
    decide
  have hsignature : ∀ p, some s.toList = some p → 64 ≤ p.length := by
    rintro _ ⟨⟩
    exact s.length_toList.ge
  obtain ⟨b, hb, hiff⟩ := verifySignature_iff kp.publicKey (by norm_num) hpayload hsignature
  refine ⟨kp, s, hkp, hs ▸ signPayload_eq_sign kp.privateKey (by decide), ?_⟩
  rw [hb, hiff.mpr ⟨rfl, nofun, _, _, _, rfl, ?_, verify_iff.mp hverify⟩]
  rw [List.take_of_length_le s.length_toList.le, toList_halves]

/-! ### The verifier -/

structure PeerEntry where
  hid : HierarchicalID
  key : IdentityKey
  deriving DecidableEq, Repr

structure Ed25519IdentityVerifier where
  peers : List PeerEntry := []

namespace Ed25519IdentityVerifier

variable (v : Ed25519IdentityVerifier)

/-- What the loops over `peers_` stop at. -/
def entryOf (hid : HierarchicalID) : Option PeerEntry :=
  v.peers.find? fun p => p.hid = hid

def verify (claimed : HierarchicalID) (payload : Option (List UInt8)) (payloadSize : ℕ)
    (signature : Option (List UInt8)) (signatureSize : ℕ) : Option Bool :=
  match v.entryOf claimed with
  | some p => verifySignature p.key payload payloadSize signature signatureSize
  | none => pure false

/-- `add_peer`, and what it returns. -/
def addPeer (hid : HierarchicalID) (key : IdentityKey) : Ed25519IdentityVerifier × Bool :=
  match v.entryOf hid with
  | some p => (v, p.key.publicKey = key.publicKey)
  | none => ({ peers := v.peers ++ [⟨hid, key⟩] }, true)

def knownPeerCount : ℕ :=
  v.peers.length

/-- A run of registrations. -/
def addPeers (entries : List PeerEntry) : Ed25519IdentityVerifier :=
  entries.foldl (fun v e => (v.addPeer e.hid e.key).1) v

/-- What a registration leaves of the table. -/
theorem entryOf_addPeer (hid hid' : HierarchicalID) (key : IdentityKey) :
    (v.addPeer hid' key).1.entryOf hid =
      (v.entryOf hid).or (if hid' = hid then some ⟨hid', key⟩ else none) := by
  unfold addPeer
  split
  · next p hp =>
    split
    · next heq =>
      rw [← heq, hp]
      rfl
    · rw [Option.or_none]
  · next hnone =>
    show (v.peers ++ [PeerEntry.mk hid' key]).find? _ = _
    rw [List.find?_append]
    congr 1
    rw [List.find?_singleton]
    simp only [decide_eq_true_eq]

/-- **The first registration** of an id is the one that counts. -/
theorem entryOf_addPeers (entries : List PeerEntry) (hid : HierarchicalID) :
    (v.addPeers entries).entryOf hid =
      (v.entryOf hid).or (entries.find? fun e => e.hid = hid) := by
  induction entries generalizing v with
  | nil => exact (Option.or_none).symm
  | cons e entries ih =>
    show ((v.addPeer e.hid e.key).1.addPeers entries).entryOf hid = _
    rw [ih, entryOf_addPeer, Option.or_assoc, List.find?_cons]
    congr 1
    by_cases heq : e.hid = hid
    · rw [if_pos heq, decide_eq_true heq]
      rfl
    · rw [if_neg heq, decide_eq_false heq]
      rfl

/-- The ids in the table. -/
def hids : List HierarchicalID :=
  v.peers.map PeerEntry.hid

theorem entryOf_eq_none_iff (hid : HierarchicalID) : v.entryOf hid = none ↔ hid ∉ v.hids := by
  unfold entryOf hids
  rw [List.find?_eq_none]
  simp only [decide_eq_true_eq, List.mem_map, not_exists, not_and]

theorem nodup_addPeer (h : v.hids.Nodup) (hid : HierarchicalID) (key : IdentityKey) :
    (v.addPeer hid key).1.hids.Nodup := by
  unfold addPeer
  split
  · exact h
  · next hnone =>
    have hnew := (v.entryOf_eq_none_iff hid).mp hnone
    show ((v.peers ++ [PeerEntry.mk hid key]).map PeerEntry.hid).Nodup
    rw [List.map_append]
    refine List.Nodup.append h (List.nodup_singleton _) ?_
    exact List.disjoint_singleton.mpr hnew

theorem nodup_addPeers (h : v.hids.Nodup) (entries : List PeerEntry) :
    (v.addPeers entries).hids.Nodup := by
  induction entries generalizing v with
  | nil => exact h
  | cons e entries ih => exact ih _ (v.nodup_addPeer h e.hid e.key)

/-- **A verifier's history.** After any registrations the key of an id is the one it was first
given: signatures are checked against it, a later call says whether it gives the same key, and an id
that was never registered has no valid signature. Each id is counted once. -/
theorem verifier_history (entries : List PeerEntry) (hid : HierarchicalID) (key : IdentityKey)
    (payload : Option (List UInt8)) (payloadSize : ℕ) (signature : Option (List UInt8))
    (signatureSize : ℕ) :
    (match entries.find? fun e => e.hid = hid with
    | some e =>
      (addPeers {} entries).verify hid payload payloadSize signature signatureSize =
          verifySignature e.key payload payloadSize signature signatureSize ∧
        (addPeers {} entries).addPeer hid key =
          (addPeers {} entries, decide (e.key.publicKey = key.publicKey))
    | none =>
      (addPeers {} entries).verify hid payload payloadSize signature signatureSize = some false ∧
        ((addPeers {} entries).addPeer hid key).2 = true) ∧
      (addPeers {} entries).knownPeerCount = (entries.map PeerEntry.hid).toFinset.card := by
  have hentry : (addPeers {} entries).entryOf hid = entries.find? fun e => e.hid = hid :=
    entryOf_addPeers {} entries hid
  refine ⟨?_, ?_⟩
  · cases hfind : entries.find? fun e => e.hid = hid with
    | some e =>
      rw [hfind] at hentry
      unfold verify addPeer
      rw [hentry]
      exact ⟨rfl, rfl⟩
    | none =>
      rw [hfind] at hentry
      unfold verify addPeer
      rw [hentry]
      exact ⟨rfl, rfl⟩
  · -- the ids are those of the registrations, each once
    have hnodup := nodup_addPeers {} List.nodup_nil entries
    have hsame : (addPeers {} entries).hids.toFinset = (entries.map PeerEntry.hid).toFinset := by
      ext id
      have hnone := (addPeers {} entries).entryOf_eq_none_iff id
      rw [entryOf_addPeers] at hnone
      have hfind : (entries.find? fun e => decide (e.hid = id)) = none ↔
          id ∉ entries.map PeerEntry.hid := by
        rw [List.find?_eq_none]
        simp only [decide_eq_true_eq, List.mem_map, not_exists, not_and]
      rw [List.mem_toFinset, List.mem_toFinset]
      exact not_iff_not.mp (hnone.symm.trans hfind)
    rw [← hsame, List.toFinset_card_of_nodup hnodup]
    exact (List.length_map _).symm

end Ed25519IdentityVerifier

end MithAtomas
