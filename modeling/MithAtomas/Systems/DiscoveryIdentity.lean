import MithAtomas.Core.BeaconTick
import MithAtomas.Core.IdentityRotation

/-!
# The id in hellos and welcomes

`DiscoverySystem` does not ask for the identity of the robot when it sends: it has its own `selfId`,
which is nil until its first tick and which that tick sets, once and for all
(`DiscoverySystem.capture`). But the handler for hellos is called from the tick of `BeaconSystem`,
which may come first; and the identity rotates.

`IdentityAge` is the history that matters: whether `DiscoverySystem` has ticked, and whether the
identity has been rotated since. `announces_itself_iff` says in which ticks the hellos and welcomes
carry the present identity: those that send none, and otherwise those that come in time
(`Announcer.InTime`). A hello that arrives before the first tick of `DiscoverySystem` is answered by
nobody in particular (`early_hello_answered_by_nil`).
-/

namespace MithAtomas

open Runs

variable (F U : Type)

/-- What has become of the identity that `DiscoverySystem` has seen. -/
inductive IdentityAge where
  /-- `DiscoverySystem` has not ticked yet -/
  | unread
  /-- it has, and there has been no rotation since its first tick -/
  | kept
  | rotated
  deriving DecidableEq, Repr

/-- A robot, with its history. -/
structure Announcer where
  robot : RotatingWorld F U
  age : IdentityAge
  /-- every id it has had -/
  held : List HierarchicalID

inductive AnnouncerEvent where
  | life (e : LifeEvent F)
  /-- packets arrive, or the mission acts -/
  | other

variable {F U}

/-- The history after an event. -/
def IdentityAge.after (age : IdentityAge) : LifeEvent F → IdentityAge
  | .clock _ => age
  | .tick s => if s = .discovery ∧ age = .unread then .kept else age
  | .rotate _ _ => if age = .unread then .unread else .rotated

def heldAfter (held : List HierarchicalID) : LifeEvent F → List HierarchicalID
  | .rotate newId _ => held ++ [newId]
  | .clock _ | .tick _ => held

/-- An id that `HierarchicalID::generate` may return: it is not nil, and nobody has had it. -/
def FreshId (held : List HierarchicalID) (newId : HierarchicalID) : Prop :=
  newId ∉ held ∧ newId.unitId.isNil = false

variable [FloatScalar F]

inductive AnnouncerStep (auth : Option SignatureScheme) :
    Announcer F U → AnnouncerEvent F → Announcer F U → Prop
  | life (a : Announcer F U) (e : LifeEvent F) (r : RotatingWorld F U)
      (hstep : LifeStep auth a.robot e r)
      (hfresh : ∀ newId next, e = .rotate newId next → FreshId a.held newId) :
      AnnouncerStep auth a (.life e) ⟨r, a.age.after e, heldAfter a.held e⟩
  | other (a : Announcer F U) (r : RotatingWorld F U) (hidentity : r.identity = a.robot.identity)
      (hself : r.discovery.selfId = a.robot.discovery.selfId)
      (hhandlers : r.messageHandlers = a.robot.messageHandlers) :
      AnnouncerStep auth a .other { a with robot := r }

/-- The robot after `init`, with a `DiscoverySystem` that has the parameters `params`. -/
def Announcer.start (config : WorldConfig F) (identity : HierarchicalID)
    (keypair : Option IdentityKeyPair)
    (beaconTransport messageTransport : Option Channel) (user : U)
    (params : DiscoverySystem.Params F) (policy : IdentityRotationPolicy) (periodS : F) :
    Announcer F U where
  robot :=
    { toWorld := { World.init config identity keypair [.discovery] beaconTransport messageTransport
        user with discovery := { params, timeInBootstrapS := 0, timeSinceLastHelloS := 0 } }
      policy
      rotationPeriodS := periodS
      lastRotationTimeS := 0 }
  age := .unread
  held := [identity]

/-- Whole ticks of the world are runs, too. -/
theorem Announcer.tick_run (auth : Option SignatureScheme) (a : Announcer F U)
    (order : List ShippedSystem) (tickRateHz : F) {newId : HierarchicalID}
    (hfresh : FreshId a.held newId) (next : IdentityKeyPair) :
    ∃ es a', Run (AnnouncerStep auth) a es a' ∧
      a'.robot = a.robot.tick auth newId next order tickRateHz := by
  -- without a rotation the ids that have been held stay the same
  have hlift : ∀ {es : List (LifeEvent F)} {r}, Run (LifeStep auth) a.robot es r →
      (∀ newId next, .rotate newId next ∉ es) →
      ∃ es' age, Run (AnnouncerStep auth) a es' ⟨r, age, a.held⟩ := by
    intro es r hrun hno
    induction hrun with
    | nil => exact ⟨[], a.age, Run.nil⟩
    | @snoc ls m e r _ hst ih =>
      obtain ⟨es', age, hrun'⟩ := ih fun newId next h => hno newId next (List.mem_append_left _ h)
      have hnot : ∀ newId next, e ≠ .rotate newId next := by
        rintro newId next rfl
        exact hno newId next (List.mem_append_right _ (List.mem_singleton_self _))
      have hstep := AnnouncerStep.life ⟨m, age, a.held⟩ e r hst
        fun newId next he => absurd he (hnot newId next)
      have hheld : heldAfter a.held e = a.held := by
        cases e with
        | clock _ | tick _ => rfl
        | rotate newId next => exact absurd rfl (hnot newId next)
      rw [hheld] at hstep
      exact ⟨_, _, hrun'.snoc hstep⟩
  obtain ⟨r, hrun, htick⟩ := MithAtomas.tick_run auth a.robot order tickRateHz newId next
  obtain ⟨es, age, hrun'⟩ := hlift hrun (by simp)
  -- a tick ends with a rotation, or without one
  rcases htick with hend | hrotate
  · exact ⟨es, _, hrun', hend.symm⟩
  · refine ⟨_, _, hrun'.snoc (AnnouncerStep.life ⟨r, age, a.held⟩ (.rotate newId next) _
      (LifeStep.rotate r newId next) ?_), hrotate.symm⟩
    rintro _ _ ⟨⟩
    exact hfresh

/-! ### The captured id -/

/-- Only `DiscoverySystem` sets it. -/
theorem ShippedSystem.selfId_tick (s : ShippedSystem) (auth : Option SignatureScheme)
    (w : World F U) : (s.tick auth w).discovery.selfId
      = if s = .discovery then w.discovery.capture w.identity else w.discovery.selfId := by
  by_cases hdiscovery : s = .discovery
  · subst hdiscovery
    exact DiscoverySystem.selfId_tick _ _ _ _ _ _
  · rw [if_neg hdiscovery]
    by_cases hbeacon : s = .beacon
    · subst hbeacon
      exact World.selfId_beaconTick w auth
    · have hframe : (s.tick auth w).discovery = w.discovery :=
        s.tick_frame (l := .discovery) w (by
          cases s <;> first | exact absurd rfl hdiscovery | exact absurd rfl hbeacon | decide)
      rw [hframe]

/-- What the history says about the captured id. -/
structure AnnouncerInv (a : Announcer F U) : Prop where
  handlers : a.robot.messageHandlers = [.discovery]
  held : a.robot.identity ∈ a.held
  unit : a.robot.identity.unitId.isNil = false
  unread : a.age = .unread → a.robot.discovery.selfId.unitId.isNil = true
  kept : a.age = .kept → a.robot.discovery.selfId = a.robot.identity
  rotated : a.age = .rotated → a.robot.discovery.selfId ∈ a.held ∧
    a.robot.discovery.selfId.unitId.isNil = false ∧
    a.robot.discovery.selfId ≠ a.robot.identity

section Invariant

variable {auth : Option SignatureScheme} {a a' : Announcer F U} {e : AnnouncerEvent F}

omit [FloatScalar F] in
/-- The id of a tick of `DiscoverySystem` is stale after a rotation, and only then. -/
theorem AnnouncerInv.capture_eq_iff (hI : AnnouncerInv a) :
    a.robot.discovery.capture a.robot.identity = a.robot.identity ↔ a.age ≠ .rotated := by
  unfold DiscoverySystem.capture
  cases hage : a.age with
  | unread => simp [hI.unread hage]
  | kept => simp [hI.kept hage]
  | rotated =>
    obtain ⟨-, hunit, hne⟩ := hI.rotated hage
    simp [hunit, hne]

omit [FloatScalar F] in
/-- The id of the handler is right between the first tick of `DiscoverySystem` and a rotation. -/
theorem AnnouncerInv.selfId_eq_iff (hI : AnnouncerInv a) :
    a.robot.discovery.selfId = a.robot.identity ↔ a.age = .kept := by
  cases hage : a.age with
  | unread =>
    have hnil := hI.unread hage
    refine ⟨fun hsame => ?_, by rintro ⟨⟩⟩
    rw [hsame, hI.unit] at hnil
    cases hnil
  | kept => exact ⟨fun _ => rfl, fun _ => hI.kept hage⟩
  | rotated => exact ⟨fun hsame => absurd hsame (hI.rotated hage).2.2, by rintro ⟨⟩⟩

omit [FloatScalar F] in
/-- An id that was captured stays, whatever the identity is. -/
theorem AnnouncerInv.capture_of_rotated (hI : AnnouncerInv a) (hage : a.age = .rotated) :
    a.robot.discovery.capture a.robot.identity = a.robot.discovery.selfId := by
  unfold DiscoverySystem.capture
  rw [(hI.rotated hage).2.1]
  rfl

omit [FloatScalar F] in
/-- What a tick leaves of the invariant, by the captured id and the age after it. -/
theorem AnnouncerInv.of_tick (hI : AnnouncerInv a) {w : World F U} {age : IdentityAge}
    (hidentity : w.identity = a.robot.identity)
    (hhandlers : w.messageHandlers = a.robot.messageHandlers)
    (hunread : age = .unread → w.discovery.selfId.unitId.isNil = true)
    (hkept : age = .kept → w.discovery.selfId = a.robot.identity)
    (hrotated : age = .rotated → a.age = .rotated ∧
      w.discovery.selfId = a.robot.discovery.selfId) :
    AnnouncerInv ⟨{ a.robot with toWorld := w }, age, a.held⟩ where
  handlers := hhandlers.trans hI.handlers
  held := hidentity.symm ▸ hI.held
  unit := hidentity.symm ▸ hI.unit
  unread := hunread
  kept hage := (hkept hage).trans hidentity.symm
  rotated hage := by
    obtain ⟨hbefore, hself⟩ := hrotated hage
    show w.discovery.selfId ∈ a.held ∧ w.discovery.selfId.unitId.isNil = false ∧
      w.discovery.selfId ≠ w.identity
    rw [hself, hidentity]
    exact hI.rotated hbefore

/-- The first tick of `DiscoverySystem` captures the present id; a later one changes nothing. -/
theorem AnnouncerInv.tick_discovery (hI : AnnouncerInv a) :
    AnnouncerInv ⟨{ a.robot with toWorld := ShippedSystem.discovery.tick auth a.robot.toWorld },
      a.age.after (.tick .discovery : LifeEvent F), a.held⟩ := by
  have hself := ShippedSystem.discovery.selfId_tick auth a.robot.toWorld
  rw [if_pos rfl] at hself
  refine hI.of_tick (ShippedSystem.discovery.identity_tick auth _)
    (ShippedSystem.discovery.messageHandlers_tick auth _) ?_ ?_ ?_
  · -- no robot is `unread` after this tick
    intro hage
    change (if _ then _ else _) = _ at hage
    split at hage
    · cases hage
    · next h => exact absurd ⟨rfl, hage⟩ h
  · intro hage
    have hnot : a.age ≠ .rotated := by
      intro h
      change (if _ then _ else _) = _ at hage
      rw [h, if_neg (by simp)] at hage
      cases hage
    exact hself.trans (hI.capture_eq_iff.mpr hnot)
  · intro hage
    have hrotated : a.age = .rotated := by
      change (if _ then _ else _) = _ at hage
      split at hage
      · cases hage
      · exact hage
    exact ⟨hrotated, hself.trans (hI.capture_of_rotated hrotated)⟩

theorem AnnouncerInv.tick (hI : AnnouncerInv a) (s : ShippedSystem) :
    AnnouncerInv ⟨{ a.robot with toWorld := s.tick auth a.robot.toWorld },
      a.age.after (.tick s : LifeEvent F), a.held⟩ := by
  by_cases hs : s = .discovery
  · subst hs
    exact hI.tick_discovery
  · have hage : a.age.after (.tick s : LifeEvent F) = a.age := if_neg fun h => hs h.1
    have hself := s.selfId_tick auth a.robot.toWorld
    rw [if_neg hs] at hself
    rw [hage]
    exact hI.of_tick (s.identity_tick auth _) (s.messageHandlers_tick auth _)
      (fun h => hself.symm ▸ hI.unread h) (fun h => hself.trans (hI.kept h))
      (fun h => ⟨h, hself⟩)

omit [FloatScalar F] in
/-- After a rotation the captured id is one of the old ones. -/
theorem AnnouncerInv.rotate (hI : AnnouncerInv a) {newId : HierarchicalID}
    (hfresh : FreshId a.held newId) (next : IdentityKeyPair) :
    AnnouncerInv ⟨a.robot.rotateIdentity auth newId next,
      a.age.after (.rotate newId next : LifeEvent F), a.held ++ [newId]⟩ := by
  obtain ⟨keypair, hworld⟩ := a.robot.toWorld_rotateIdentity auth newId next
  have hself : (a.robot.rotateIdentity auth newId next).discovery = a.robot.discovery := by
    rw [hworld]
  have hhandlers : (a.robot.rotateIdentity auth newId next).messageHandlers
      = a.robot.messageHandlers := by
    rw [hworld]
  refine ⟨hhandlers.trans hI.handlers, List.mem_append_right _ (List.mem_singleton_self _),
    hfresh.2, ?_, ?_, ?_⟩
  · intro hage
    have hunread : a.age = .unread := by
      by_contra h
      change (if _ then _ else _) = _ at hage
      rw [if_neg h] at hage
      cases hage
    rw [hself]
    exact hI.unread hunread
  · intro hage
    change (if _ then _ else _) = _ at hage
    split at hage <;> cases hage
  · intro hage
    -- the captured id has been held before, the new one has not
    have hold : a.robot.discovery.selfId ∈ a.held ∧
        a.robot.discovery.selfId.unitId.isNil = false := by
      cases hprev : a.age with
      | unread =>
        rw [hprev] at hage
        cases hage
      | kept =>
        rw [hI.kept hprev]
        exact ⟨hI.held, hI.unit⟩
      | rotated => exact ⟨(hI.rotated hprev).1, (hI.rotated hprev).2.1⟩
    rw [hself]
    refine ⟨List.mem_append_left _ hold.1, hold.2, ?_⟩
    intro hsame
    change a.robot.discovery.selfId = newId at hsame
    exact hfresh.1 (hsame ▸ hold.1)

/-- **Every event keeps the invariant.** -/
theorem AnnouncerInv.step (hI : AnnouncerInv a) (hst : AnnouncerStep auth a e a') :
    AnnouncerInv a' := by
  cases hst with
  | life e r hstep hfresh =>
    cases hstep with
    | clock tickRateHz =>
      exact ⟨hI.handlers, hI.held, hI.unit, hI.unread, hI.kept, hI.rotated⟩
    | tick s => exact hI.tick s
    | rotate newId next => exact hI.rotate (hfresh newId next rfl) next
  | other r hidentity hself hhandlers =>
    refine ⟨hhandlers.trans hI.handlers, hidentity.symm ▸ hI.held, hidentity.symm ▸ hI.unit,
      hself.symm ▸ hI.unread, ?_, ?_⟩
    · rw [hself, hidentity]
      exact hI.kept
    · rw [hself, hidentity]
      exact hI.rotated

end Invariant

/-! ### What is sent -/

/-- A message of discovery that a system sends carries the present identity: the id, and in signed
mode the key with it. A `TRANSMIT` action brings its own payload. -/
def World.Presents (auth : Option SignatureScheme) (w : World F U) (s : ShippedSystem)
    (m : Message F) : Prop :=
  m.sender = w.identity ∧ (s ≠ .transmit → ∀ scheme kp, auth = some scheme → w.keypair = some kp →
    m.payload = DiscoverySystem.embedPubkey kp.publicKey)

/-- All hellos and welcomes that a tick of `s` sends do. -/
def World.AnnouncesItself (auth : Option SignatureScheme) (w : World F U) (s : ShippedSystem) :
    Prop :=
  ∀ new, (s.tick auth w).sent = w.sent ++ new → ∀ m, Packet.message m ∈ new →
    m.type = messages.DISCOVERY_HELLO ∨ m.type = messages.DISCOVERY_WELCOME → w.Presents auth s m

/-- The hellos and welcomes of a tick come in time: a hello is sent before any rotation, and hellos
are answered after the first tick of `DiscoverySystem` and before any rotation. -/
def Announcer.InTime (a : Announcer F U) : ShippedSystem → Prop
  | .discovery =>
    a.robot.discovery.HelloDue a.robot.messageTransport a.robot.context.deltaTimeS →
      a.age ≠ .rotated
  | .beacon =>
    usable a.robot.messageTransport = true →
      (∃ m ∈ a.robot.rxMessages, m.type = messages.DISCOVERY_HELLO) → a.age = .kept
  | _ => True

namespace World

variable {auth : Option SignatureScheme} {w : World F U} {s : ShippedSystem}

/-- What is sent in a tick is determined. -/
theorem announcesItself_iff {new : List (Packet F)} (h : (s.tick auth w).sent = w.sent ++ new) :
    w.AnnouncesItself auth s ↔ ∀ m, Packet.message m ∈ new →
      m.type = messages.DISCOVERY_HELLO ∨ m.type = messages.DISCOVERY_WELCOME →
        w.Presents auth s m := by
  refine ⟨fun hall => hall new h, fun hall new' h' => ?_⟩
  rw [h, List.append_cancel_left_eq] at h'
  exact h' ▸ hall

/-- An announcement under some id presents the robot if the id is the present one. -/
theorem presents_announce_iff (sender recipient : HierarchicalID) (type : MessageTypeID) :
    w.Presents auth s (DiscoverySystem.announce auth w.keypair sender recipient type) ↔
      sender = w.identity := by
  unfold Presents
  rw [DiscoverySystem.sender_announce]
  refine ⟨fun h => h.1, fun h => ⟨h, ?_⟩⟩
  rintro - scheme kp rfl hkp
  rw [hkp]
  exact DiscoverySystem.payload_announce _ _ _ _ _

theorem announcesItself_discovery :
    w.AnnouncesItself auth .discovery ↔
      (w.discovery.HelloDue w.messageTransport w.context.deltaTimeS →
        w.discovery.capture w.identity = w.identity) := by
  have hsent : (ShippedSystem.discovery.tick auth w).sent = w.sent ++ List.map Packet.message
      (if w.discovery.HelloDue w.messageTransport w.context.deltaTimeS then
        [DiscoverySystem.announce auth w.keypair (w.discovery.capture w.identity) broadcastID
          messages.DISCOVERY_HELLO] else []) := by
    rw [← DiscoverySystem.sent_tick]
    rfl
  rw [announcesItself_iff hsent]
  split
  · next hdue =>
    constructor
    · intro hall _
      refine (presents_announce_iff _ _ _).mp (hall _ (List.mem_singleton_self _) (.inl ?_))
      exact DiscoverySystem.type_announce _ _ _ _ _
    · intro hsame m hm _
      obtain rfl : m = _ := Packet.message.inj (List.mem_singleton.mp hm)
      exact (presents_announce_iff _ _ _).mpr (hsame hdue)
  · next hdue =>
    refine ⟨fun _ h => absurd h hdue, ?_⟩
    rintro - m ⟨⟩

theorem announcesItself_beacon (hhandlers : w.messageHandlers = [.discovery]) :
    w.AnnouncesItself auth .beacon ↔
      (usable w.messageTransport = true →
        (∃ m ∈ w.rxMessages, m.type = messages.DISCOVERY_HELLO) →
          w.discovery.selfId = w.identity) := by
  have hsent : (ShippedSystem.beacon.tick auth w).sent
      = w.sent ++ ((w.outgoing auth).map .beacon ++ (w.replies auth).map .message) := by
    rw [← List.append_assoc]
    exact sent_beaconTick
  have hmem : ∀ m, Packet.message m ∈ (w.outgoing auth).map Packet.beacon
      ++ (w.replies auth).map Packet.message ↔ m ∈ w.replies auth := by
    intro m
    simp
  rw [announcesItself_iff hsent]
  simp only [hmem]
  rw [replies_eq hhandlers]
  constructor
  · rintro hall husable ⟨m, hm, hhello⟩
    -- a hello is answered by a welcome that names `selfId`
    rw [if_pos husable] at hall
    have hwelcome : DiscoverySystem.announce auth w.keypair w.discovery.selfId m.sender
        messages.DISCOVERY_WELCOME ∈ w.welcomes auth w.rxMessages :=
      List.mem_map.mpr ⟨m, List.mem_filter.mpr ⟨hm, decide_eq_true hhello⟩, rfl⟩
    exact (presents_announce_iff _ _ _).mp
      (hall _ hwelcome (.inr (DiscoverySystem.type_announce _ _ _ _ _)))
  · intro hsame m hm _
    split at hm
    · next husable =>
      obtain ⟨m', hm', rfl⟩ := List.mem_map.mp hm
      obtain ⟨hmem', hhello⟩ := List.mem_filter.mp hm'
      exact (presents_announce_iff _ _ _).mpr (hsame husable ⟨m', hmem', of_decide_eq_true hhello⟩)
    · cases hm

/-- Nobody else sends messages of discovery, but for the mission. -/
theorem announcesItself_other (hdiscovery : s ≠ .discovery) (hbeacon : s ≠ .beacon) :
    w.AnnouncesItself auth s := by
  by_cases htransmit : s = .transmit
  · subst htransmit
    have hsent : (ShippedSystem.transmit.tick auth w).sent = w.sent ++ List.map Packet.message
        (if usable w.messageTransport then
          (w.transmit.tick w.identity w.syncedTimeS w.actionQueue).2 else []) := by
      show w.transmitTick.sent = _
      unfold transmitTick sendTransmits
      split
      · rfl
      · exact (List.append_nil _).symm
    rw [announcesItself_iff hsent]
    intro m hm _
    refine ⟨?_, fun h => absurd rfl h⟩
    -- a transmitted message is sent as the identity itself
    obtain ⟨m', hm', hsame⟩ := List.mem_map.mp hm
    obtain rfl := Packet.message.inj hsame
    split at hm'
    · rw [TransmitActionHandler.tick_eq] at hm'
      obtain ⟨action, -, rfl⟩ := List.mem_map.mp hm'
      rfl
    · cases hm'
  · -- the other systems send nothing
    have hframe : (s.tick auth w).sent = w.sent :=
      s.tick_frame (l := .sent) w (by
        cases s <;> first
          | exact absurd rfl hdiscovery | exact absurd rfl hbeacon | exact absurd rfl htransmit
          | decide)
    rw [announcesItself_iff (hframe.trans (List.append_nil _).symm)]
    rintro m ⟨⟩

end World

/-- **When a robot announces itself as it is.** In every run, the hellos and welcomes of a tick
carry the present id and key if and only if they come in time. -/
theorem announces_itself_iff (auth : Option SignatureScheme) (config : WorldConfig F)
    (identity : HierarchicalID) (hunit : identity.unitId.isNil = false)
    (keypair : Option IdentityKeyPair)
    (beaconTransport messageTransport : Option Channel) (user : U)
    (params : DiscoverySystem.Params F) (policy : IdentityRotationPolicy) (periodS : F)
    {es : List (AnnouncerEvent F)} {a : Announcer F U}
    (hrun : Run (AnnouncerStep auth) (Announcer.start config identity keypair beaconTransport
      messageTransport user params policy periodS) es a) (s : ShippedSystem) :
    a.robot.toWorld.AnnouncesItself auth s ↔ a.InTime s := by
  have hI : AnnouncerInv a := by
    refine hrun.invariant (I := AnnouncerInv) (fun _ _ _ hI hst => hI.step hst) ?_
    exact ⟨rfl, List.mem_singleton_self _, hunit, fun _ => rfl, by rintro ⟨⟩, by rintro ⟨⟩⟩
  by_cases hdiscovery : s = .discovery
  · subst hdiscovery
    rw [World.announcesItself_discovery]
    exact imp_congr_right fun _ => hI.capture_eq_iff
  · by_cases hbeacon : s = .beacon
    · subst hbeacon
      rw [World.announcesItself_beacon hI.handlers]
      exact imp_congr_right fun _ => imp_congr_right fun _ => hI.selfId_eq_iff
    · have htime : a.InTime s := by
        cases s <;> first | exact absurd rfl hdiscovery | exact absurd rfl hbeacon | trivial
      exact iff_of_true (World.announcesItself_other hdiscovery hbeacon) htime

/-! ### A hello in the first tick -/

/-- A robot that has just been started, on a transport of its own. -/
def startedRobot : Announcer ℚ Unit :=
  .start .default ⟨1, ⟨Vector.replicate 16 1⟩⟩ none (some ⟨true⟩) (some ⟨true⟩) () .default
    .permanent 0

/-- A newcomer's hello. -/
def newcomersHello : Message ℚ :=
  DiscoverySystem.announce none none ⟨1, ⟨Vector.replicate 16 2⟩⟩ broadcastID
    messages.DISCOVERY_HELLO

/-- The hello arrives. -/
def Announcer.greeted (a : Announcer ℚ Unit) : Announcer ℚ Unit :=
  { a with robot := { a.robot with toWorld :=
      { a.robot.toWorld with rxMessages := a.robot.rxMessages ++ [newcomersHello] } } }

theorem greeted_step (a : Announcer ℚ Unit) : AnnouncerStep none a .other a.greeted :=
  AnnouncerStep.other a a.greeted.robot rfl rfl rfl

/-- After the first tick of `DiscoverySystem` the hello is answered as it should be. -/
theorem hello_answered : ∃ (es : List (AnnouncerEvent ℚ)) (a : Announcer ℚ Unit),
    Run (AnnouncerStep none) startedRobot es a ∧ newcomersHello ∈ a.robot.rxMessages ∧
      a.robot.toWorld.AnnouncesItself none .beacon := by
  have hdiscovery : LifeStep none startedRobot.robot (.tick .discovery) _ :=
    LifeStep.tick startedRobot.robot .discovery
  have htick := AnnouncerStep.life startedRobot _ _ hdiscovery (by rintro _ _ ⟨⟩)
  have hrun := (Run.single htick).snoc (greeted_step _)
  refine ⟨_, _, hrun, List.mem_append_right _ (List.mem_singleton_self _), ?_⟩
  exact (announces_itself_iff none .default ⟨1, ⟨Vector.replicate 16 1⟩⟩ (by decide) none
    (some ⟨true⟩) (some ⟨true⟩) () .default .permanent 0 hrun .beacon).mpr fun _ _ => rfl

/-- **An early hello is answered under the nil id.** -/
theorem early_hello_answered_by_nil :
    ¬ ∀ (identity : HierarchicalID), identity.unitId.isNil = false →
      ∀ (es : List (AnnouncerEvent ℚ)) (a : Announcer ℚ Unit),
        Run (AnnouncerStep none) (Announcer.start .default identity none (some ⟨true⟩) (some ⟨true⟩)
          () .default .permanent 0) es a →
        ∀ s, a.robot.toWorld.AnnouncesItself none s := by
  intro hclaim
  have hbeacon := hclaim ⟨1, ⟨Vector.replicate 16 1⟩⟩ (by decide) _ _
    (Run.single (greeted_step startedRobot)) .beacon
  have hsame := (World.announcesItself_beacon rfl).mp hbeacon rfl
    ⟨newcomersHello, List.mem_singleton_self _, rfl⟩
  exact absurd hsame (by decide)

end MithAtomas
