import MithAtomas.Behaviour.ActionValidatorSystem
import MithAtomas.Behaviour.BuiltinActionHandlers
import MithAtomas.Comms.BeaconSystem
import MithAtomas.Core.ComponentId
import MithAtomas.Systems.ClockSyncSystem
import MithAtomas.Systems.DiscoverySystem
import MithAtomas.Systems.FaultMonitorSystem
import MithAtomas.Systems.FlockingSystem
import MithAtomas.Systems.KinematicsSystem
import MithAtomas.Systems.PartitionMergeSystem
import MithAtomas.Systems.TaskAllocSystem

/-!
# The world

`src/core/world.cpp`: the state of one robot, its components, the tables and clocks its systems
share, its transports, and the fields of the shipped systems themselves. What a mission adds,
components and systems of its own, is the field `user`.

Every shipped system has its `tick` here, on the whole world: the functions of the systems' own
modules applied to the fields they read, the results stored in the fields they write. `describe` is
what each declares to the scheduler.
-/

namespace MithAtomas

variable (F U : Type)

structure SwarmContext where
  swarmId : SwarmID
  elapsedTimeS : F
  deltaTimeS : F
  tickCount : UInt64
  deriving DecidableEq, Repr

/-- `WorldConfig`, as far as it shapes the state. -/
structure WorldConfig where
  swarmId : SwarmID
  tickRateHz : F
  beaconRateHz : F
  neighbourTimeoutS : F
  deriving DecidableEq, Repr

/-- The message handlers that shipped systems register: `DiscoverySystem` registers its own. -/
inductive MessageHandler where
  | discovery
  deriving DecidableEq, Repr

@[ext] structure World where
  identity : HierarchicalID
  position : PositionComponent F
  velocity : VelocityComponent F
  health : HealthComponent
  role : RoleComponent
  state : BehaviourStateComponent
  mask : PermissionMaskComponent
  actionQueue : ActionQueueComponent F
  commBuffer : CommBufferComponent F
  context : SwarmContext F
  neighbourTable : NeighbourTable F
  faultCount : UInt64
  peerKeys : PeerKeyRegistry
  clockOffsetS : F
  mergeWindowRemainingS : F
  keypair : Option IdentityKeyPair
  messageHandlers : List MessageHandler
  beaconTransport : Option Channel
  messageTransport : Option Channel
  /-- what the next `poll_beacons` returns -/
  rxBeacons : List (StateVector F)
  /-- what the next `poll_messages` returns -/
  rxMessages : List (Message F)
  /-- what has been handed to the transports -/
  sent : List (Packet F)
  sink : Option TraceSink
  beacon : BeaconSystem F
  clockSync : ClockSyncSystem F
  discovery : DiscoverySystem F
  faultMonitor : FaultMonitorSystem
  flocking : FlockingSystem F
  hover : HoverActionHandler
  move : MoveActionHandler
  partitionMerge : PartitionMergeSystem F
  taskAlloc : TaskAllocSystem F
  transmit : TransmitActionHandler
  user : U

variable {F U} [FloatScalar F]

/-- `WorldConfig{}`. -/
def WorldConfig.default : WorldConfig F where
  swarmId := 1
  tickRateHz := ((20 : ℕ) : F)
  beaconRateHz := ((10 : ℕ) : F)
  neighbourTimeoutS := 1 / ((2 : ℕ) : F)

namespace World

/-- A world after `init`, with the identity and the key pair that it has generated; the shipped
systems have their default parameters. -/
def init (config : WorldConfig F) (identity : HierarchicalID) (keypair : Option IdentityKeyPair)
    (messageHandlers : List MessageHandler) (beaconTransport messageTransport : Option Channel)
    (user : U) : World F U where
  identity
  position := ⟨0, 0, 0⟩
  velocity := ⟨0, 0, 0⟩
  health := {}
  role := {}
  state := {}
  mask := {}
  actionQueue := .empty
  commBuffer := .empty
  context := ⟨config.swarmId, 0, 0, 0⟩
  neighbourTable := .empty
  faultCount := 0
  peerKeys := ∅
  clockOffsetS := 0
  mergeWindowRemainingS := 0
  keypair
  messageHandlers
  beaconTransport
  messageTransport
  rxBeacons := []
  rxMessages := []
  sent := []
  sink := none
  beacon :=
    { beaconPeriodS := if 0 < config.beaconRateHz then 1 / config.beaconRateHz else 0
      neighbourTimeoutS := config.neighbourTimeoutS
      timeSinceLastBeaconS := 0 }
  clockSync := { params := .default }
  discovery := { params := .default, timeInBootstrapS := 0, timeSinceLastHelloS := 0 }
  faultMonitor := {}
  flocking := { params := .default }
  hover := {}
  move := {}
  partitionMerge := { params := .default }
  taskAlloc := { params := .default, timeSinceLastSwitchS := 0 }
  transmit := {}
  user

variable (w : World F U)

/-- `synced_time_s`. -/
def syncedTimeS : F :=
  w.context.elapsedTimeS + w.clockOffsetS

/-- `is_merging`. -/
def isMerging : Bool :=
  decide (0 < w.mergeWindowRemainingS)

/-- The first part of `tick`, before the scheduler's. -/
def advance (tickRateHz : F) : World F U :=
  let deltaTimeS := 1 / tickRateHz
  let context := { w.context with
    deltaTimeS
    elapsedTimeS := w.context.elapsedTimeS + deltaTimeS
    tickCount := w.context.tickCount + 1 }
  -- the merge window runs down, and not below zero
  let mergeWindowRemainingS :=
    if 0 < w.mergeWindowRemainingS then
      if w.mergeWindowRemainingS - deltaTimeS < 0 then 0 else w.mergeWindowRemainingS - deltaTimeS
    else w.mergeWindowRemainingS
  { w with context, mergeWindowRemainingS }

/-! ### The ticks of the systems -/

def actionValidatorTick : World F U :=
  let (actionQueue, sink) :=
    ActionValidatorSystem.tick w.mask w.context.tickCount w.actionQueue w.sink
  { w with actionQueue, sink }

/-- The beacon that would be sent now. -/
def stateVector : StateVector F where
  id := w.identity
  position := w.position
  velocity := w.velocity
  health := w.health
  role := w.role
  state := w.state
  tick := w.context.tickCount.toUInt32
  syncTimeS := w.syncedTimeS
  -- both are set by the signature, if there is one
  senderPubkey := {}
  signature := Vector.replicate 64 0

variable (auth : Option SignatureScheme)

/-- The second step of `BeaconSystem::tick`. -/
def emitBeacon : World F U :=
  let (beacon, out) :=
    w.beacon.emit auth w.keypair w.beaconTransport w.stateVector w.context.deltaTimeS
  { w with beacon, sent := w.sent ++ out.map .beacon }

/-- What the third step makes of the beacons polled. -/
def beaconInbox : BeaconInbox F :=
  w.rxBeacons.foldl (BeaconInbox.receive auth w.identity w.context.elapsedTimeS)
    ⟨w.neighbourTable, w.peerKeys, w.beacon.rejectedBeacons⟩

/-- `poll_beacons`, and the loop over what it returns. -/
def drainBeacons : World F U :=
  let inbox := w.beaconInbox auth
  { w with
    rxBeacons := []
    neighbourTable := inbox.table
    peerKeys := inbox.keys
    beacon := { w.beacon with rejectedBeacons := inbox.rejectedBeacons } }

/-- The third step of `BeaconSystem::tick`. -/
def receiveBeacons : World F U :=
  if usable w.beaconTransport then w.drainBeacons auth else w

/-- The handlers, on what they work on. -/
def handlers :
    List (DiscoverySystem.Inbox F → Message F → DiscoverySystem.Inbox F × Bool) :=
  w.messageHandlers.map fun
    | .discovery => DiscoverySystem.handleMessage auth w.keypair w.messageTransport

/-- What the fourth step makes of the messages polled. -/
def messageInbox : DiscoverySystem.Inbox F × CommBufferComponent F :=
  w.rxMessages.foldl (route (w.handlers auth)) (⟨w.discovery, w.peerKeys, []⟩, w.commBuffer)

/-- `poll_messages`, and the loop over what it returns. -/
def drainMessages : World F U :=
  let (inbox, commBuffer) := w.messageInbox auth
  { w with
    rxMessages := []
    commBuffer
    discovery := inbox.sys
    peerKeys := inbox.keys
    sent := w.sent ++ inbox.sent.map .message }

/-- The fourth step of `BeaconSystem::tick`. -/
def receiveMessages : World F U :=
  if usable w.messageTransport then w.drainMessages auth else w

/-- The first step of `BeaconSystem::tick`: the table ages in any case. -/
def ageNeighbours : World F U :=
  { w with
    neighbourTable :=
      w.neighbourTable.ageOut w.context.elapsedTimeS w.beacon.neighbourTimeoutS }

def beaconTick : World F U :=
  let w := w.ageNeighbours
  if w.beaconTransport.isNone ∧ w.messageTransport.isNone then w
  else ((w.emitBeacon auth).receiveBeacons auth).receiveMessages auth

def clockSyncTick : World F U :=
  let (clockSync, clockOffsetS) :=
    w.clockSync.tick w.neighbourTable.entries w.syncedTimeS w.clockOffsetS
  { w with clockSync, clockOffsetS }

def discoveryTick : World F U :=
  let (discovery, out) := w.discovery.tick auth w.identity w.keypair w.messageTransport
    w.neighbourTable.entries w.context.deltaTimeS
  { w with discovery, sent := w.sent ++ out.map .message }

def faultMonitorTick : World F U :=
  let (faultMonitor, health, mask, state) :=
    w.faultMonitor.tick w.faultCount w.health w.mask w.state
  { w with faultMonitor, health, mask, state }

def flockingTick : World F U :=
  { w with
    velocity := w.flocking.tick w.neighbourTable w.position w.velocity w.context.deltaTimeS }

def hoverTick : World F U :=
  { w with hover := w.hover.tick w.actionQueue }

def kinematicsTick : World F U :=
  { w with position := KinematicsSystem.tick w.velocity w.context.deltaTimeS w.position }

def moveTick : World F U :=
  let (move, velocity) := w.move.tick w.actionQueue w.velocity
  { w with move, velocity }

def partitionMergeTick : World F U :=
  let (partitionMerge, mergeWindowRemainingS) :=
    w.partitionMerge.tick w.neighbourTable.entries w.mergeWindowRemainingS
  { w with partitionMerge, mergeWindowRemainingS }

def taskAllocTick : World F U :=
  let (taskAlloc, role) :=
    w.taskAlloc.tick w.neighbourTable.entries w.isMerging w.role w.context.deltaTimeS
  { w with taskAlloc, role }

/-- The loop of `TransmitActionHandler::tick`. -/
def sendTransmits : World F U :=
  let (transmit, out) := w.transmit.tick w.identity w.syncedTimeS w.actionQueue
  { w with transmit, sent := w.sent ++ out.map .message }

def transmitTick : World F U :=
  if usable w.messageTransport then w.sendTransmits else w

end World

/-! ### The shipped systems -/

/-- The systems of the repository. -/
inductive ShippedSystem where
  | actionValidator
  | beacon
  | clockSync
  | discovery
  | faultMonitor
  | flocking
  | hover
  | kinematics
  | move
  | partitionMerge
  | taskAlloc
  | transmit
  deriving DecidableEq, Repr

namespace ShippedSystem

/-- All of them. -/
def all : List ShippedSystem :=
  [actionValidator, beacon, clockSync, discovery, faultMonitor, flocking, hover, kinematics, move,
    partitionMerge, taskAlloc, transmit]

instance : Fintype ShippedSystem where
  elems := ⟨all, by decide⟩
  complete := by
    intro s
    cases s <;> decide

/-- `describe`, of each system. -/
def describe : ShippedSystem → SystemDescriptor
  | actionValidator =>
    { name := "ActionValidatorSystem"
      readsComponents := [Builtin.permissionMask.id]
      writesComponents := [Builtin.actionQueue.id]
      readsResources := []
      writesResources := [] }
  | beacon =>
    { name := "BeaconSystem"
      readsComponents := [Builtin.identity.id, Builtin.position.id, Builtin.velocity.id,
        Builtin.health.id, Builtin.role.id, Builtin.behaviourState.id]
      writesComponents := [Builtin.commBuffer.id]
      readsResources := [.transportRx]
      writesResources := [.neighbourTable, .transportTx] }
  | clockSync =>
    { name := "ClockSyncSystem"
      readsComponents := []
      writesComponents := []
      readsResources := [.neighbourTable]
      writesResources := [] }
  | discovery =>
    { name := "DiscoverySystem"
      readsComponents := []
      writesComponents := []
      readsResources := [.neighbourTable]
      writesResources := [.transportTx] }
  | faultMonitor =>
    { name := "FaultMonitorSystem"
      readsComponents := [Builtin.health.id]
      writesComponents := [Builtin.health.id, Builtin.permissionMask.id, Builtin.behaviourState.id]
      readsResources := []
      writesResources := [] }
  | flocking =>
    { name := "FlockingSystem"
      readsComponents := [Builtin.position.id, Builtin.velocity.id]
      writesComponents := [Builtin.velocity.id]
      readsResources := [.neighbourTable]
      writesResources := [] }
  | hover =>
    { name := "HoverActionHandler"
      readsComponents := [Builtin.actionQueue.id]
      writesComponents := []
      readsResources := []
      writesResources := [] }
  | kinematics =>
    { name := "KinematicsSystem"
      readsComponents := [Builtin.velocity.id]
      writesComponents := [Builtin.position.id]
      readsResources := []
      writesResources := [] }
  | move =>
    { name := "MoveActionHandler"
      readsComponents := [Builtin.actionQueue.id]
      writesComponents := [Builtin.velocity.id]
      readsResources := []
      writesResources := [] }
  | partitionMerge =>
    { name := "PartitionMergeSystem"
      readsComponents := []
      writesComponents := []
      readsResources := [.neighbourTable]
      writesResources := [] }
  | taskAlloc =>
    { name := "TaskAllocSystem"
      readsComponents := [Builtin.role.id, Builtin.behaviourState.id]
      writesComponents := [Builtin.role.id]
      readsResources := [.neighbourTable]
      writesResources := [] }
  | transmit =>
    { name := "TransmitActionHandler"
      readsComponents := [Builtin.actionQueue.id]
      writesComponents := []
      readsResources := []
      writesResources := [.transportTx] }

/-- `tick`, of each system. -/
def tick (auth : Option SignatureScheme) : ShippedSystem → World F U → World F U
  | actionValidator => World.actionValidatorTick
  | beacon => fun w => w.beaconTick auth
  | clockSync => World.clockSyncTick
  | discovery => fun w => w.discoveryTick auth
  | faultMonitor => World.faultMonitorTick
  | flocking => World.flockingTick
  | hover => World.hoverTick
  | kinematics => World.kinematicsTick
  | move => World.moveTick
  | partitionMerge => World.partitionMergeTick
  | taskAlloc => World.taskAllocTick
  | transmit => World.transmitTick

/-- A shipped system as the scheduler sees it. -/
def system (auth : Option SignatureScheme) (s : ShippedSystem) : System (World F U) where
  describe := s.describe
  tick := s.tick auth

end ShippedSystem

end MithAtomas
