import MithAtomas.Core.World
import MithAtomas.Framework.Footprint

/-!
# What the shipped systems really touch

The world as a collection of cells, one for each of its fields, and for each shipped system the
cells its `tick` reads and writes, declared or not (`ShippedSystem.touchesReads`,
`ShippedSystem.touchesWrites`). `ShippedSystem.touches` proves the lists right; systems whose lists
do not meet commute (`ShippedSystem.Apart.commute`).
-/

namespace MithAtomas

open Footprint

/-- The fields of a world. -/
inductive Cell where
  | identity
  | position
  | velocity
  | health
  | role
  | state
  | mask
  | actionQueue
  | commBuffer
  | context
  | neighbourTable
  | faultCount
  | peerKeys
  | clockOffsetS
  | mergeWindowRemainingS
  | keypair
  | messageHandlers
  | beaconTransport
  | messageTransport
  | rxBeacons
  | rxMessages
  | sent
  | sink
  | beacon
  | clockSync
  | discovery
  | faultMonitor
  | flocking
  | hover
  | move
  | partitionMerge
  | taskAlloc
  | transmit
  | user
  deriving DecidableEq, Repr

variable (F U : Type)

/-- The type of a field. -/
def Cell.Val : Cell → Type
  | identity => HierarchicalID
  | position => PositionComponent F
  | velocity => VelocityComponent F
  | health => HealthComponent
  | role => RoleComponent
  | state => BehaviourStateComponent
  | mask => PermissionMaskComponent
  | actionQueue => ActionQueueComponent F
  | commBuffer => CommBufferComponent F
  | context => SwarmContext F
  | neighbourTable => NeighbourTable F
  | faultCount => UInt64
  | peerKeys => PeerKeyRegistry
  | clockOffsetS => F
  | mergeWindowRemainingS => F
  | keypair => Option IdentityKeyPair
  | messageHandlers => List MessageHandler
  | beaconTransport => Option Channel
  | messageTransport => Option Channel
  | rxBeacons => List (StateVector F)
  | rxMessages => List (Message F)
  | sent => List (Packet F)
  | sink => Option TraceSink
  | beacon => BeaconSystem F
  | clockSync => ClockSyncSystem F
  | discovery => DiscoverySystem F
  | faultMonitor => FaultMonitorSystem
  | flocking => FlockingSystem F
  | hover => HoverActionHandler
  | move => MoveActionHandler
  | partitionMerge => PartitionMergeSystem F
  | taskAlloc => TaskAllocSystem F
  | transmit => TransmitActionHandler
  | user => U

/-- The content of a field. -/
def Cell.get (w : World F U) : (l : Cell) → l.Val F U
  | identity => w.identity
  | position => w.position
  | velocity => w.velocity
  | health => w.health
  | role => w.role
  | state => w.state
  | mask => w.mask
  | actionQueue => w.actionQueue
  | commBuffer => w.commBuffer
  | context => w.context
  | neighbourTable => w.neighbourTable
  | faultCount => w.faultCount
  | peerKeys => w.peerKeys
  | clockOffsetS => w.clockOffsetS
  | mergeWindowRemainingS => w.mergeWindowRemainingS
  | keypair => w.keypair
  | messageHandlers => w.messageHandlers
  | beaconTransport => w.beaconTransport
  | messageTransport => w.messageTransport
  | rxBeacons => w.rxBeacons
  | rxMessages => w.rxMessages
  | sent => w.sent
  | sink => w.sink
  | beacon => w.beacon
  | clockSync => w.clockSync
  | discovery => w.discovery
  | faultMonitor => w.faultMonitor
  | flocking => w.flocking
  | hover => w.hover
  | move => w.move
  | partitionMerge => w.partitionMerge
  | taskAlloc => w.taskAlloc
  | transmit => w.transmit
  | user => w.user

/-- A world as its fields. -/
def worldCells : Cells (World F U) Cell where
  Val := Cell.Val F U
  get := fun l w => Cell.get F U w l
  ext := fun h => World.ext (h .identity) (h .position) (h .velocity) (h .health) (h .role)
    (h .state) (h .mask) (h .actionQueue) (h .commBuffer) (h .context) (h .neighbourTable)
    (h .faultCount) (h .peerKeys) (h .clockOffsetS) (h .mergeWindowRemainingS) (h .keypair)
    (h .messageHandlers) (h .beaconTransport) (h .messageTransport) (h .rxBeacons) (h .rxMessages)
    (h .sent) (h .sink) (h .beacon) (h .clockSync) (h .discovery) (h .faultMonitor) (h .flocking)
    (h .hover) (h .move) (h .partitionMerge) (h .taskAlloc) (h .transmit) (h .user)

namespace ShippedSystem

/-- The fields that a system's `tick` reads. -/
def touchesReads : ShippedSystem → List Cell
  | actionValidator => [.mask, .context]
  | beacon => [.identity, .position, .velocity, .health, .role, .state, .context, .clockOffsetS,
      .keypair, .messageHandlers, .beaconTransport, .messageTransport]
  | clockSync => [.neighbourTable, .context]
  | discovery => [.identity, .keypair, .messageTransport, .neighbourTable, .context]
  | faultMonitor => [.faultCount]
  | flocking => [.flocking, .neighbourTable, .position, .context]
  | hover => [.actionQueue]
  | kinematics => [.velocity, .context]
  | move => [.actionQueue]
  | partitionMerge => [.neighbourTable]
  | taskAlloc => [.neighbourTable, .mergeWindowRemainingS, .context]
  | transmit => [.identity, .context, .clockOffsetS, .actionQueue, .messageTransport]

/-- The fields that a system's `tick` writes. -/
def touchesWrites : ShippedSystem → List Cell
  | actionValidator => [.actionQueue, .sink]
  | beacon => [.neighbourTable, .peerKeys, .commBuffer, .rxBeacons, .rxMessages, .sent, .beacon,
      .discovery]
  | clockSync => [.clockSync, .clockOffsetS]
  | discovery => [.discovery, .sent]
  | faultMonitor => [.faultMonitor, .health, .mask, .state]
  | flocking => [.velocity]
  | hover => [.hover]
  | kinematics => [.position]
  | move => [.move, .velocity]
  | partitionMerge => [.partitionMerge, .mergeWindowRemainingS]
  | taskAlloc => [.taskAlloc, .role]
  | transmit => [.transmit, .sent]

end ShippedSystem

variable {F U}

/-- A function on worlds with the footprint given by two lists. -/
abbrev WorldTouches (t : World F U → World F U) (reads writes : List Cell) : Prop :=
  Touches (worldCells F U) t {l | l ∈ reads} {l | l ∈ writes}

/-- Two worlds agree on the fields of two lists. -/
def Agree (reads writes : List Cell) (w w' : World F U) : Prop :=
  ∀ l, l ∈ reads ∨ l ∈ writes → Cell.get F U w l = Cell.get F U w' l

theorem WorldTouches.of {t : World F U → World F U} {reads writes : List Cell}
    (hframe : ∀ w l, l ∉ writes → Cell.get F U (t w) l = Cell.get F U w l)
    (hdepends : ∀ w w', Agree reads writes w w' →
      ∀ l ∈ writes, Cell.get F U (t w) l = Cell.get F U (t w') l) :
    WorldTouches t reads writes where
  frame := hframe
  depends := hdepends

/-- Longer lists describe a function as well. -/
theorem WorldTouches.mono {t : World F U → World F U} {reads writes reads' writes' : List Cell}
    (h : WorldTouches t reads writes) (hreads : ∀ l ∈ reads, l ∈ reads' ∨ l ∈ writes')
    (hwrites : ∀ l ∈ writes, l ∈ writes') : WorldTouches t reads' writes' :=
  Touches.mono h hreads hwrites

/-- A world that is left as it is. -/
theorem WorldTouches.untouched (reads writes : List Cell) :
    WorldTouches (fun w : World F U => w) reads writes :=
  Touches.id.mono (Set.empty_subset _) (Set.empty_subset _)

variable [FloatScalar F] {auth : Option SignatureScheme}

/-! ### One footprint per system

Outside the written fields a tick is the identity by computation; what it stores there is computed
from fields on which the two worlds agree. -/

namespace World

omit [FloatScalar F] in
theorem actionValidatorTick_touches : WorldTouches (actionValidatorTick (F := F) (U := U))
    [.mask, .context] [.actionQueue, .sink] := by
  refine .of (fun w l hl => ?_) (fun w w' h l hl => ?_)
  · cases l <;> first | rfl | exact absurd (by decide) hl
  · have hmask : w.mask = w'.mask := h .mask (by decide)
    have hcontext : w.context = w'.context := h .context (by decide)
    have hactionQueue : w.actionQueue = w'.actionQueue := h .actionQueue (by decide)
    have hsink : w.sink = w'.sink := h .sink (by decide)
    cases l <;> try exact absurd hl (by decide)
    all_goals
      simp only [Cell.get, actionValidatorTick, hmask, hcontext, hactionQueue, hsink]
      rfl

theorem clockSyncTick_touches : WorldTouches (clockSyncTick (F := F) (U := U))
    [.neighbourTable, .context] [.clockSync, .clockOffsetS] := by
  refine .of (fun w l hl => ?_) (fun w w' h l hl => ?_)
  · cases l <;> first | rfl | exact absurd (by decide) hl
  · have hneighbourTable : w.neighbourTable = w'.neighbourTable := h .neighbourTable (by decide)
    have hcontext : w.context = w'.context := h .context (by decide)
    have hclockSync : w.clockSync = w'.clockSync := h .clockSync (by decide)
    have hclockOffsetS : w.clockOffsetS = w'.clockOffsetS := h .clockOffsetS (by decide)
    cases l <;> try exact absurd hl (by decide)
    all_goals
      simp only [Cell.get, clockSyncTick, syncedTimeS, hneighbourTable, hcontext, hclockSync,
        hclockOffsetS]
      rfl

theorem discoveryTick_touches : WorldTouches (discoveryTick (F := F) (U := U) · auth)
    [.identity, .keypair, .messageTransport, .neighbourTable, .context] [.discovery, .sent] := by
  refine .of (fun w l hl => ?_) (fun w w' h l hl => ?_)
  · cases l <;> first | rfl | exact absurd (by decide) hl
  · have hidentity : w.identity = w'.identity := h .identity (by decide)
    have hkeypair : w.keypair = w'.keypair := h .keypair (by decide)
    have hmessageTransport : w.messageTransport = w'.messageTransport :=
      h .messageTransport (by decide)
    have hneighbourTable : w.neighbourTable = w'.neighbourTable := h .neighbourTable (by decide)
    have hcontext : w.context = w'.context := h .context (by decide)
    have hdiscovery : w.discovery = w'.discovery := h .discovery (by decide)
    have hsent : w.sent = w'.sent := h .sent (by decide)
    cases l <;> try exact absurd hl (by decide)
    all_goals
      simp only [Cell.get, discoveryTick, hidentity, hkeypair, hmessageTransport, hneighbourTable,
        hcontext, hdiscovery, hsent]
      rfl

omit [FloatScalar F] in
theorem faultMonitorTick_touches : WorldTouches (faultMonitorTick (F := F) (U := U))
    [.faultCount] [.faultMonitor, .health, .mask, .state] := by
  refine .of (fun w l hl => ?_) (fun w w' h l hl => ?_)
  · cases l <;> first | rfl | exact absurd (by decide) hl
  · have hfaultCount : w.faultCount = w'.faultCount := h .faultCount (by decide)
    have hfaultMonitor : w.faultMonitor = w'.faultMonitor := h .faultMonitor (by decide)
    have hhealth : w.health = w'.health := h .health (by decide)
    have hmask : w.mask = w'.mask := h .mask (by decide)
    have hstate : w.state = w'.state := h .state (by decide)
    cases l <;> try exact absurd hl (by decide)
    all_goals
      simp only [Cell.get, faultMonitorTick, hfaultCount, hfaultMonitor, hhealth, hmask, hstate]
      rfl

theorem flockingTick_touches : WorldTouches (flockingTick (F := F) (U := U))
    [.flocking, .neighbourTable, .position, .context] [.velocity] := by
  refine .of (fun w l hl => ?_) (fun w w' h l hl => ?_)
  · cases l <;> first | rfl | exact absurd (by decide) hl
  · have hflocking : w.flocking = w'.flocking := h .flocking (by decide)
    have hneighbourTable : w.neighbourTable = w'.neighbourTable := h .neighbourTable (by decide)
    have hposition : w.position = w'.position := h .position (by decide)
    have hcontext : w.context = w'.context := h .context (by decide)
    have hvelocity : w.velocity = w'.velocity := h .velocity (by decide)
    cases l <;> try exact absurd hl (by decide)
    all_goals
      simp only [Cell.get, flockingTick, hflocking, hneighbourTable, hposition, hcontext,
        hvelocity]
      rfl

omit [FloatScalar F] in
theorem hoverTick_touches : WorldTouches (hoverTick (F := F) (U := U))
    [.actionQueue] [.hover] := by
  refine .of (fun w l hl => ?_) (fun w w' h l hl => ?_)
  · cases l <;> first | rfl | exact absurd (by decide) hl
  · have hactionQueue : w.actionQueue = w'.actionQueue := h .actionQueue (by decide)
    have hhover : w.hover = w'.hover := h .hover (by decide)
    cases l <;> try exact absurd hl (by decide)
    all_goals
      simp only [Cell.get, hoverTick, hactionQueue, hhover]
      rfl

theorem kinematicsTick_touches : WorldTouches (kinematicsTick (F := F) (U := U))
    [.velocity, .context] [.position] := by
  refine .of (fun w l hl => ?_) (fun w w' h l hl => ?_)
  · cases l <;> first | rfl | exact absurd (by decide) hl
  · have hvelocity : w.velocity = w'.velocity := h .velocity (by decide)
    have hcontext : w.context = w'.context := h .context (by decide)
    have hposition : w.position = w'.position := h .position (by decide)
    cases l <;> try exact absurd hl (by decide)
    all_goals
      simp only [Cell.get, kinematicsTick, hvelocity, hcontext, hposition]
      rfl

theorem moveTick_touches : WorldTouches (moveTick (F := F) (U := U))
    [.actionQueue] [.move, .velocity] := by
  refine .of (fun w l hl => ?_) (fun w w' h l hl => ?_)
  · cases l <;> first | rfl | exact absurd (by decide) hl
  · have hactionQueue : w.actionQueue = w'.actionQueue := h .actionQueue (by decide)
    have hmove : w.move = w'.move := h .move (by decide)
    have hvelocity : w.velocity = w'.velocity := h .velocity (by decide)
    cases l <;> try exact absurd hl (by decide)
    all_goals
      simp only [Cell.get, moveTick, hactionQueue, hmove, hvelocity]
      rfl

omit [FloatScalar F] in
theorem partitionMergeTick_touches : WorldTouches (partitionMergeTick (F := F) (U := U))
    [.neighbourTable] [.partitionMerge, .mergeWindowRemainingS] := by
  refine .of (fun w l hl => ?_) (fun w w' h l hl => ?_)
  · cases l <;> first | rfl | exact absurd (by decide) hl
  · have hneighbourTable : w.neighbourTable = w'.neighbourTable := h .neighbourTable (by decide)
    have hpartitionMerge : w.partitionMerge = w'.partitionMerge := h .partitionMerge (by decide)
    have hmergeWindowRemainingS : w.mergeWindowRemainingS = w'.mergeWindowRemainingS :=
      h .mergeWindowRemainingS (by decide)
    cases l <;> try exact absurd hl (by decide)
    all_goals
      simp only [Cell.get, partitionMergeTick, hneighbourTable, hpartitionMerge,
        hmergeWindowRemainingS]
      rfl

theorem taskAllocTick_touches : WorldTouches (taskAllocTick (F := F) (U := U))
    [.neighbourTable, .mergeWindowRemainingS, .context] [.taskAlloc, .role] := by
  refine .of (fun w l hl => ?_) (fun w w' h l hl => ?_)
  · cases l <;> first | rfl | exact absurd (by decide) hl
  · have hneighbourTable : w.neighbourTable = w'.neighbourTable := h .neighbourTable (by decide)
    have hmergeWindowRemainingS : w.mergeWindowRemainingS = w'.mergeWindowRemainingS :=
      h .mergeWindowRemainingS (by decide)
    have hcontext : w.context = w'.context := h .context (by decide)
    have htaskAlloc : w.taskAlloc = w'.taskAlloc := h .taskAlloc (by decide)
    have hrole : w.role = w'.role := h .role (by decide)
    cases l <;> try exact absurd hl (by decide)
    all_goals
      simp only [Cell.get, taskAllocTick, isMerging, hneighbourTable, hmergeWindowRemainingS,
        hcontext, htaskAlloc, hrole]
      rfl

theorem sendTransmits_touches : WorldTouches (sendTransmits (F := F) (U := U))
    [.identity, .context, .clockOffsetS, .actionQueue] [.transmit, .sent] := by
  refine .of (fun w l hl => ?_) (fun w w' h l hl => ?_)
  · cases l <;> first | rfl | exact absurd (by decide) hl
  · have hidentity : w.identity = w'.identity := h .identity (by decide)
    have hcontext : w.context = w'.context := h .context (by decide)
    have hclockOffsetS : w.clockOffsetS = w'.clockOffsetS := h .clockOffsetS (by decide)
    have hactionQueue : w.actionQueue = w'.actionQueue := h .actionQueue (by decide)
    have htransmit : w.transmit = w'.transmit := h .transmit (by decide)
    have hsent : w.sent = w'.sent := h .sent (by decide)
    cases l <;> try exact absurd hl (by decide)
    all_goals
      simp only [Cell.get, sendTransmits, syncedTimeS, hidentity, hcontext, hclockOffsetS,
        hactionQueue, htransmit, hsent]
      rfl

theorem ageNeighbours_touches : WorldTouches (ageNeighbours (F := F) (U := U))
    [.context, .beacon] [.neighbourTable] := by
  refine .of (fun w l hl => ?_) (fun w w' h l hl => ?_)
  · cases l <;> first | rfl | exact absurd (by decide) hl
  · have hcontext : w.context = w'.context := h .context (by decide)
    have hbeacon : w.beacon = w'.beacon := h .beacon (by decide)
    have hneighbourTable : w.neighbourTable = w'.neighbourTable := h .neighbourTable (by decide)
    cases l <;> try exact absurd hl (by decide)
    all_goals
      simp only [Cell.get, ageNeighbours, hcontext, hbeacon, hneighbourTable]
      rfl

theorem emitBeacon_touches : WorldTouches (emitBeacon (F := F) (U := U) · auth)
    [.identity, .position, .velocity, .health, .role, .state, .context, .clockOffsetS, .keypair,
      .beaconTransport] [.beacon, .sent] := by
  refine .of (fun w l hl => ?_) (fun w w' h l hl => ?_)
  · cases l <;> first | rfl | exact absurd (by decide) hl
  · have hidentity : w.identity = w'.identity := h .identity (by decide)
    have hposition : w.position = w'.position := h .position (by decide)
    have hvelocity : w.velocity = w'.velocity := h .velocity (by decide)
    have hhealth : w.health = w'.health := h .health (by decide)
    have hrole : w.role = w'.role := h .role (by decide)
    have hstate : w.state = w'.state := h .state (by decide)
    have hcontext : w.context = w'.context := h .context (by decide)
    have hclockOffsetS : w.clockOffsetS = w'.clockOffsetS := h .clockOffsetS (by decide)
    have hkeypair : w.keypair = w'.keypair := h .keypair (by decide)
    have hbeaconTransport : w.beaconTransport = w'.beaconTransport := h .beaconTransport (by decide)
    have hbeacon : w.beacon = w'.beacon := h .beacon (by decide)
    have hsent : w.sent = w'.sent := h .sent (by decide)
    cases l <;> try exact absurd hl (by decide)
    all_goals
      simp only [Cell.get, emitBeacon, stateVector, syncedTimeS, hidentity, hposition, hvelocity,
        hhealth, hrole, hstate, hcontext, hclockOffsetS, hkeypair, hbeaconTransport, hbeacon, hsent]
      rfl

theorem drainBeacons_touches : WorldTouches (drainBeacons (F := F) (U := U) · auth)
    [.identity, .context] [.rxBeacons, .neighbourTable, .peerKeys, .beacon] := by
  refine .of (fun w l hl => ?_) (fun w w' h l hl => ?_)
  · cases l <;> first | rfl | exact absurd (by decide) hl
  · have hidentity : w.identity = w'.identity := h .identity (by decide)
    have hcontext : w.context = w'.context := h .context (by decide)
    have hrxBeacons : w.rxBeacons = w'.rxBeacons := h .rxBeacons (by decide)
    have hneighbourTable : w.neighbourTable = w'.neighbourTable := h .neighbourTable (by decide)
    have hpeerKeys : w.peerKeys = w'.peerKeys := h .peerKeys (by decide)
    have hbeacon : w.beacon = w'.beacon := h .beacon (by decide)
    cases l <;> try exact absurd hl (by decide)
    all_goals
      simp only [Cell.get, drainBeacons, beaconInbox, hidentity, hcontext, hrxBeacons,
        hneighbourTable, hpeerKeys, hbeacon]
      rfl

theorem drainMessages_touches : WorldTouches (drainMessages (F := F) (U := U) · auth)
    [.keypair, .messageTransport, .messageHandlers]
    [.rxMessages, .commBuffer, .discovery, .peerKeys, .sent] := by
  refine .of (fun w l hl => ?_) (fun w w' h l hl => ?_)
  · cases l <;> first | rfl | exact absurd (by decide) hl
  · have hkeypair : w.keypair = w'.keypair := h .keypair (by decide)
    have hmessageTransport : w.messageTransport = w'.messageTransport :=
      h .messageTransport (by decide)
    have hmessageHandlers : w.messageHandlers = w'.messageHandlers := h .messageHandlers (by decide)
    have hrxMessages : w.rxMessages = w'.rxMessages := h .rxMessages (by decide)
    have hcommBuffer : w.commBuffer = w'.commBuffer := h .commBuffer (by decide)
    have hdiscovery : w.discovery = w'.discovery := h .discovery (by decide)
    have hpeerKeys : w.peerKeys = w'.peerKeys := h .peerKeys (by decide)
    have hsent : w.sent = w'.sent := h .sent (by decide)
    cases l <;> try exact absurd hl (by decide)
    all_goals
      simp only [Cell.get, drainMessages, messageInbox, handlers, hkeypair, hmessageTransport,
        hmessageHandlers, hrxMessages, hcommBuffer, hdiscovery, hpeerKeys, hsent]
      rfl

theorem transmitTick_touches : WorldTouches (transmitTick (F := F) (U := U))
    [.identity, .context, .clockOffsetS, .actionQueue, .messageTransport] [.transmit, .sent] := by
  refine Touches.ite (fun w w' h => ?_) (sendTransmits_touches.mono (by decide) (by decide))
    (WorldTouches.untouched _ _)
  have htransport : w.messageTransport = w'.messageTransport := h .messageTransport (by decide)
  rw [htransport]

/-- The fields of `BeaconSystem`, step by step. -/
theorem beaconTick_touches : WorldTouches (beaconTick (F := F) (U := U) · auth)
    ShippedSystem.beacon.touchesReads ShippedSystem.beacon.touchesWrites := by
  have hage : WorldTouches (ageNeighbours (F := F) (U := U))
      ShippedSystem.beacon.touchesReads ShippedSystem.beacon.touchesWrites :=
    ageNeighbours_touches.mono (by decide) (by decide)
  have hemit : WorldTouches (emitBeacon (F := F) (U := U) · auth)
      ShippedSystem.beacon.touchesReads ShippedSystem.beacon.touchesWrites :=
    emitBeacon_touches.mono (by decide) (by decide)
  have hbeacons : WorldTouches (receiveBeacons (F := F) (U := U) · auth)
      ShippedSystem.beacon.touchesReads ShippedSystem.beacon.touchesWrites := by
    refine Touches.ite (fun w w' h => ?_) (drainBeacons_touches.mono (by decide) (by decide))
      (WorldTouches.untouched _ _)
    have htransport : w.beaconTransport = w'.beaconTransport := h .beaconTransport (by decide)
    rw [htransport]
  have hmessages : WorldTouches (receiveMessages (F := F) (U := U) · auth)
      ShippedSystem.beacon.touchesReads ShippedSystem.beacon.touchesWrites := by
    refine Touches.ite (fun w w' h => ?_) (drainMessages_touches.mono (by decide) (by decide))
      (WorldTouches.untouched _ _)
    have htransport : w.messageTransport = w'.messageTransport := h .messageTransport (by decide)
    rw [htransport]
  -- with no transport at all, the tick is over after the first step
  have hrest : WorldTouches (fun w : World F U =>
      if w.beaconTransport.isNone ∧ w.messageTransport.isNone then w
      else ((w.emitBeacon auth).receiveBeacons auth).receiveMessages auth)
      ShippedSystem.beacon.touchesReads ShippedSystem.beacon.touchesWrites := by
    refine Touches.ite (fun w w' h => ?_) (WorldTouches.untouched _ _)
      ((hemit.comp hbeacons).comp hmessages)
    have hbeacon : w.beaconTransport = w'.beaconTransport := h .beaconTransport (by decide)
    have hmessage : w.messageTransport = w'.messageTransport := h .messageTransport (by decide)
    rw [hbeacon, hmessage]
  exact hage.comp hrest

end World

/-! ### All systems -/

namespace ShippedSystem

/-- **The lists are right**: what a system's `tick` changes, and what that depends on. -/
theorem touches (s : ShippedSystem) :
    WorldTouches (F := F) (U := U) (s.tick auth) s.touchesReads s.touchesWrites := by
  cases s with
  | actionValidator => exact World.actionValidatorTick_touches
  | beacon => exact World.beaconTick_touches
  | clockSync => exact World.clockSyncTick_touches
  | discovery => exact World.discoveryTick_touches
  | faultMonitor => exact World.faultMonitorTick_touches
  | flocking => exact World.flockingTick_touches
  | hover => exact World.hoverTick_touches
  | kinematics => exact World.kinematicsTick_touches
  | move => exact World.moveTick_touches
  | partitionMerge => exact World.partitionMergeTick_touches
  | taskAlloc => exact World.taskAllocTick_touches
  | transmit => exact World.transmitTick_touches

/-- A field that a system does not write stays. -/
theorem tick_frame (s : ShippedSystem) (w : World F U) {l : Cell} (hl : l ∉ s.touchesWrites) :
    Cell.get F U (s.tick auth w) l = Cell.get F U w l :=
  s.touches.frame w l hl

/-- Neither of two systems writes what the other touches. -/
def Apart (a b : ShippedSystem) : Prop :=
  (∀ l ∈ a.touchesWrites, l ∉ b.touchesReads ∧ l ∉ b.touchesWrites) ∧
    ∀ l ∈ b.touchesWrites, l ∉ a.touchesReads ∧ l ∉ a.touchesWrites

instance (a b : ShippedSystem) : Decidable (Apart a b) :=
  inferInstanceAs (Decidable (_ ∧ _))

/-- Systems that are apart commute. -/
theorem Apart.commute {a b : ShippedSystem} (h : Apart a b) :
    Function.Commute (a.tick auth) (b.tick auth : World F U → World F U) := by
  refine Touches.commute a.touches b.touches ?_ ?_
  · rw [Set.disjoint_left]
    rintro l hl (hr | hw)
    · exact (h.1 l hl).1 hr
    · exact (h.1 l hl).2 hw
  · rw [Set.disjoint_left]
    rintro l hl (hr | hw)
    · exact (h.2 l hl).1 hr
    · exact (h.2 l hl).2 hw

end ShippedSystem

end MithAtomas
