import MithAtomas.Comms.NeighbourTable
import MithAtomas.Comms.PeerKeyRegistry
import MithAtomas.Comms.Transport
import MithAtomas.Framework.ByteCodec

/-!
# Discovery

`src/systems/discovery_system.cpp`: the bootstrap state machine, which broadcasts hellos until it
knows enough peers or has waited long enough, and the handler that the message router calls for
every inbound message. In signed mode both messages carry the sender's public key in their first 32
payload bytes, and the handler pins it.
-/

namespace MithAtomas

open ByteCodec

variable (F : Type)

/-- `enum class DiscoveryState`. -/
inductive DiscoveryState where
  | bootstrapping
  | active
  deriving DecidableEq, Repr

/-- `DiscoverySystem::Params`. -/
structure DiscoverySystem.Params where
  bootstrapQuorum : UInt32
  bootstrapTimeoutS : F
  helloPeriodS : F
  deriving DecidableEq, Repr

structure DiscoverySystem where
  selfId : HierarchicalID := {}
  params : DiscoverySystem.Params F
  state : DiscoveryState := .bootstrapping
  peersSeen : UInt32 := 0
  timeInBootstrapS : F
  timeSinceLastHelloS : F
  hellosSent : UInt64 := 0
  welcomesSent : UInt64 := 0
  welcomesReceived : UInt64 := 0
  hellosReceived : UInt64 := 0
  deriving DecidableEq, Repr

variable {F}

namespace DiscoverySystem

/-- `embed_pubkey_into_payload`: the key, then zeros. -/
def embedPubkey (key : IdentityKey) : Vector UInt8 128 :=
  (bytes 128).get key.publicKey.toList

/-- `extract_pubkey_from_payload`; nothing when the key is all zeros. -/
def extractPubkey (m : Message F) : Option IdentityKey :=
  let key : IdentityKey := ⟨(bytes 32).get m.payload.toList⟩
  if key.present then some key else none

/-- A message of discovery, with the sender's key in signed mode. -/
def announce [Zero F] (auth : Option SignatureScheme) (keypair : Option IdentityKeyPair)
    (sender recipient : HierarchicalID) (type : MessageTypeID) : Message F :=
  let m : Message F := { Message.empty with sender, recipient, type }
  match auth, keypair with
  | some _, some kp => { m with payload := embedPubkey kp.publicKey }
  | _, _ => m

variable [Scalar F] (auth : Option SignatureScheme)

/-- `Params{}`. -/
def Params.default : Params F where
  bootstrapQuorum := 1
  bootstrapTimeoutS := ((30 : ℕ) : F)
  helloPeriodS := 1

/-- `tick`, with the messages it sends; `identity` is `World::identity()`. -/
def tick (sys : DiscoverySystem F) (identity : HierarchicalID) (keypair : Option IdentityKeyPair)
    (messageTransport : Option Channel) (entries : List (Entry F)) (deltaTime : F) :
    DiscoverySystem F × List (Message F) :=
  -- captured once: a later identity is not looked at
  let sys := if sys.selfId.unitId.isNil then { sys with selfId := identity } else sys
  if sys.state = .active then (sys, [])
  else
    let sys := { sys with
      timeInBootstrapS := sys.timeInBootstrapS + deltaTime
      timeSinceLastHelloS := sys.timeSinceLastHelloS + deltaTime }
    -- a period that is not positive turns the hellos off
    let (sys, sent) :=
      if 0 < sys.params.helloPeriodS ∧ sys.params.helloPeriodS ≤ sys.timeSinceLastHelloS ∧
          usable messageTransport then
        ({ sys with hellosSent := sys.hellosSent + 1, timeSinceLastHelloS := 0 },
          [announce auth keypair sys.selfId broadcastID messages.DISCOVERY_HELLO])
      else (sys, [])
    let sys := { sys with peersSeen := UInt32.ofNat entries.length }
    -- enough peers, or enough time
    if sys.params.bootstrapQuorum ≤ sys.peersSeen then ({ sys with state := .active }, sent)
    else if sys.params.bootstrapTimeoutS ≤ sys.timeInBootstrapS then
      ({ sys with state := .active }, sent)
    else (sys, sent)

/-- The pin of an advertised key, in signed mode; whether it was accepted is not looked at. -/
def pinAdvertised (keys : PeerKeyRegistry) (m : Message F) : PeerKeyRegistry :=
  match auth, extractPubkey m with
  | some _, some advertised => (keys.tryPin m.sender advertised).1
  | _, _ => keys

/-- What the handler works on: the system, the registry, and the messages sent so far. -/
structure Inbox (F : Type) where
  sys : DiscoverySystem F
  keys : PeerKeyRegistry
  sent : List (Message F)

/-- `handle_message_`, with its result. -/
def handleMessage (keypair : Option IdentityKeyPair) (messageTransport : Option Channel)
    (inbox : Inbox F) (m : Message F) : Inbox F × Bool :=
  if m.type = messages.DISCOVERY_HELLO then
    let sys := { inbox.sys with hellosReceived := inbox.sys.hellosReceived + 1 }
    -- pinned before any beacon of the sender is seen
    let keys := pinAdvertised auth inbox.keys m
    -- always answered: active peers help newcomers too
    if usable messageTransport then
      let welcome := announce auth keypair sys.selfId m.sender messages.DISCOVERY_WELCOME
      ({ sys := { sys with welcomesSent := sys.welcomesSent + 1 }, keys,
         sent := inbox.sent ++ [welcome] }, true)
    else ({ inbox with sys, keys }, true)
  else if m.type = messages.DISCOVERY_WELCOME then
    ({ inbox with
        sys := { inbox.sys with welcomesReceived := inbox.sys.welcomesReceived + 1 }
        keys := pinAdvertised auth inbox.keys m }, true)
  -- not a discovery message: it goes on to the mission queue
  else (inbox, false)

variable {auth} {keys : PeerKeyRegistry} {hid : HierarchicalID} {pinned : IdentityKey}

omit [Scalar F] in
/-- An advertised key does not displace a pin. -/
theorem find_pinAdvertised (h : keys.find hid = some pinned) (m : Message F) :
    (pinAdvertised auth keys m).find hid = some pinned := by
  unfold pinAdvertised
  split
  · exact PeerKeyRegistry.find_tryPin_of_find h
  · exact h

omit [Scalar F] in
/-- A pin that a message has made is for its own sender and advertised key. -/
theorem find_pinAdvertised_new {key : IdentityKey} {m : Message F}
    (h : (pinAdvertised auth keys m).find hid = some key) :
    keys.find hid = some key ∨ (hid = m.sender ∧ extractPubkey m = some key) := by
  unfold pinAdvertised at h
  split at h
  · next hadvertised =>
    rcases PeerKeyRegistry.find_tryPin_new h with hold | ⟨hhid, rfl⟩
    · exact .inl hold
    · exact .inr ⟨hhid, hadvertised⟩
  · exact .inl h

/-- The message is a part of discovery. -/
def IsDiscovery (m : Message F) : Prop :=
  m.type = messages.DISCOVERY_HELLO ∨ m.type = messages.DISCOVERY_WELCOME

/-- What a message does to the registry. -/
theorem keys_handleMessage (auth : Option SignatureScheme) (keypair : Option IdentityKeyPair)
    (messageTransport : Option Channel) (inbox : Inbox F) (m : Message F) :
    (IsDiscovery m ∧ (handleMessage auth keypair messageTransport inbox m).1.keys
        = pinAdvertised auth inbox.keys m) ∨
      (handleMessage auth keypair messageTransport inbox m).1.keys = inbox.keys := by
  unfold handleMessage
  split
  · next hhello =>
    refine .inl ⟨.inl hhello, ?_⟩
    split <;> rfl
  · split
    · next hwelcome => exact .inl ⟨.inr hwelcome, rfl⟩
    · exact .inr rfl

/-! ### What is sent, and under which id -/

/-- The id that a tick has in `selfId`: the first that is not nil is kept. -/
def capture (sys : DiscoverySystem F) (identity : HierarchicalID) : HierarchicalID :=
  if sys.selfId.unitId.isNil then identity else sys.selfId

/-- A tick sends a hello. -/
def HelloDue (sys : DiscoverySystem F) (messageTransport : Option Channel) (deltaTime : F) : Prop :=
  sys.state ≠ .active ∧ 0 < sys.params.helloPeriodS ∧
    sys.params.helloPeriodS ≤ sys.timeSinceLastHelloS + deltaTime ∧ usable messageTransport = true

instance (sys : DiscoverySystem F) (messageTransport : Option Channel) (deltaTime : F) :
    Decidable (HelloDue sys messageTransport deltaTime) :=
  inferInstanceAs (Decidable (_ ∧ _))

section Tick

variable (sys : DiscoverySystem F) (identity : HierarchicalID) (keypair : Option IdentityKeyPair)
  (messageTransport : Option Channel) (entries : List (Entry F)) (deltaTime : F)

theorem selfId_tick :
    (sys.tick auth identity keypair messageTransport entries deltaTime).1.selfId
      = sys.capture identity := by
  unfold tick capture
  by_cases hnil : sys.selfId.unitId.isNil = true
  · simp only [hnil, if_true]
    split
    · rfl
    · split <;> split <;> (try split) <;> rfl
  · simp only [hnil, if_false, Bool.false_eq_true]
    split
    · rfl
    · split <;> split <;> (try split) <;> rfl

/-- **What a tick sends**: a hello if one is due, under the captured id. -/
theorem sent_tick :
    (sys.tick auth identity keypair messageTransport entries deltaTime).2
      = if sys.HelloDue messageTransport deltaTime then
          [announce auth keypair (sys.capture identity) broadcastID messages.DISCOVERY_HELLO]
        else [] := by
  unfold tick capture HelloDue
  by_cases hnil : sys.selfId.unitId.isNil = true
  · simp only [hnil, if_true]
    by_cases hactive : sys.state = .active
    · simp [hactive]
    · simp only [hactive, if_false, ne_eq, not_false_eq_true, true_and]
      split <;> split <;> (try split) <;> rfl
  · simp only [hnil, if_false, Bool.false_eq_true]
    by_cases hactive : sys.state = .active
    · simp [hactive]
    · simp only [hactive, if_false, ne_eq, not_false_eq_true, true_and]
      split <;> split <;> (try split) <;> rfl

end Tick

/-- The handler leaves the id alone. -/
theorem selfId_handleMessage (auth : Option SignatureScheme) (keypair : Option IdentityKeyPair)
    (messageTransport : Option Channel) (inbox : Inbox F) (m : Message F) :
    (handleMessage auth keypair messageTransport inbox m).1.sys.selfId = inbox.sys.selfId := by
  unfold handleMessage
  split
  · split <;> rfl
  · split <;> rfl

/-- A hello is claimed. -/
theorem handleMessage_hello (auth : Option SignatureScheme) (keypair : Option IdentityKeyPair)
    (messageTransport : Option Channel) (inbox : Inbox F) {m : Message F}
    (hhello : m.type = messages.DISCOVERY_HELLO) :
    (handleMessage auth keypair messageTransport inbox m).2 = true := by
  unfold handleMessage
  rw [if_pos hhello]
  split <;> rfl

/-- **What the handler sends**: a welcome for every hello. -/
theorem sent_handleMessage (auth : Option SignatureScheme) (keypair : Option IdentityKeyPair)
    (messageTransport : Option Channel) (inbox : Inbox F) (m : Message F) :
    (handleMessage auth keypair messageTransport inbox m).1.sent
      = inbox.sent ++ if m.type = messages.DISCOVERY_HELLO ∧ usable messageTransport = true then
          [announce auth keypair inbox.sys.selfId m.sender messages.DISCOVERY_WELCOME]
        else [] := by
  unfold handleMessage
  by_cases hhello : m.type = messages.DISCOVERY_HELLO
  · by_cases husable : usable messageTransport = true
    · simp only [hhello, husable, if_true, and_self]
    · simp [hhello, husable]
  · simp only [hhello, if_false, false_and, List.append_nil]
    split <;> rfl

omit [Scalar F] in
@[simp] theorem sender_announce [Zero F] (auth : Option SignatureScheme)
    (keypair : Option IdentityKeyPair) (sender recipient : HierarchicalID) (type : MessageTypeID) :
    (announce auth keypair sender recipient type : Message F).sender = sender := by
  unfold announce
  split <;> rfl

omit [Scalar F] in
@[simp] theorem type_announce [Zero F] (auth : Option SignatureScheme)
    (keypair : Option IdentityKeyPair) (sender recipient : HierarchicalID) (type : MessageTypeID) :
    (announce auth keypair sender recipient type : Message F).type = type := by
  unfold announce
  split <;> rfl

omit [Scalar F] in
/-- In signed mode the key goes with it. -/
theorem payload_announce [Zero F] (scheme : SignatureScheme) (kp : IdentityKeyPair)
    (sender recipient : HierarchicalID) (type : MessageTypeID) :
    (announce (some scheme) (some kp) sender recipient type : Message F).payload
      = embedPubkey kp.publicKey := rfl

end DiscoverySystem

end MithAtomas
