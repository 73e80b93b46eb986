import MithAtomas.Framework.HashGrid
import MithAtomas.Comms.CellKey
import MithAtomas.Comms.StateVector

/-!
# The simulation bus

`src/sim/sim_bus.cpp`: an in-process medium that hands a beacon, or a broadcast message, to every
other participant within `comm_range_m`. `rebuildGrid` files the participants by the cell they are
in at the start of a step of `advance()`; a delivery looks into the 27 cells around the sender's
present cell and tests the present distance of what it finds there (`recipients`).

A participant's position is what `pos_fn` returns at the moment, so it changes under the bus
(`setPosition`), also between a rebuild and a delivery. `Reachable range b filed` is every state a
bus with that range can be in, with `filed` the positions at the last rebuild.

`InRange` is what a delivery is for; `FiledNearby` is the condition under which the buckets do not
miss anybody: whoever is in range now was filed in one of the 27 cells.
-/

namespace MithAtomas

open HashGrid

variable {F : Type}

/-- `SimBus::Participant`; `posFn` is what calling `pos_fn` returns at present, `none` if it is not
set. -/
structure Participant (F : Type) where
  identity : HierarchicalID
  posFn : Option (PositionComponent F)
  inboundBeacons : List (StateVector F)
  inboundMessages : List (Message F)

/-- `inbound_beacons.push_back(sv)`. -/
def Participant.receiveBeacon (sv : StateVector F) (p : Participant F) : Participant F :=
  { p with inboundBeacons := p.inboundBeacons ++ [sv] }

/-- `inbound_messages.push_back(msg)`. -/
def Participant.receiveMessage (msg : Message F) (p : Participant F) : Participant F :=
  { p with inboundMessages := p.inboundMessages ++ [msg] }

structure SimBus (F : Type) where
  commRangeM : F
  participants : List (Participant F)
  grid : Grid CellKey
  gridCellSizeM : F

namespace SimBus

variable [Scalar F] (b : SimBus F)

/-- `SimBus::SimBus(config)`. -/
def init (commRangeM : F) : SimBus F where
  commRangeM := commRangeM
  participants := []
  grid := ∅
  gridCellSizeM := 0

/-- `create_world`: the new World's participant, wired to its position. -/
def createWorld (identity : HierarchicalID) (pos : PositionComponent F) : SimBus F :=
  { b with participants := b.participants ++ [⟨identity, some pos, [], []⟩] }

def cellFor (p : PositionComponent F) : CellKey :=
  cellKeyFor b.gridCellSizeM p

/-- The loop of `rebuild_grid_`, from participant `i` on. -/
def fileFrom (cellSize : F) : ℕ → List (Participant F) → Grid CellKey → Grid CellKey
  | _, [], g => g
  | i, p :: ps, g =>
    fileFrom cellSize (i + 1) ps
      (match p.posFn with
       | none => g
       | some pos => file g (cellKeyFor cellSize pos) i)

/-- `rebuild_grid_`. -/
def rebuildGrid : SimBus F :=
  { b with
    gridCellSizeM := b.commRangeM
    grid := if b.commRangeM ≤ 0 then ∅ else fileFrom b.commRangeM 0 b.participants ∅ }

/-- The tests before a `push_back`: not the sender, positioned, in range. -/
def accepts (fromIdx : ℕ) (fromPos : PositionComponent F) (toIdx : ℕ) : Option ℕ :=
  if toIdx = fromIdx then none
  else
    match b.participants[toIdx]? with
    | none => none
    | some p =>
      match p.posFn with
      | none => none
      | some toPos =>
        if toPos.distSq fromPos ≤ b.commRangeM * b.commRangeM then some toIdx else none

/-- Who gets a beacon or a broadcast sent from `fromPos`, in order: through the grid with `span = 1`
if there is one, else by a scan. -/
def recipients (fromIdx : ℕ) (fromPos : PositionComponent F) : List ℕ :=
  if 0 < b.gridCellSizeM ∧ b.grid.entries ≠ [] then
    (visit b.grid (cellBlock (b.cellFor fromPos) 1)).filterMap (b.accepts fromIdx fromPos)
  else
    (List.range b.participants.length).filterMap (b.accepts fromIdx fromPos)

/-- The effect of a `push_back` on participant `toIdx`. -/
def update (f : Participant F → Participant F) (toIdx : ℕ) : SimBus F :=
  { b with participants := b.participants.modify toIdx f }

/-- One `push_back` for each recipient. -/
def updateAll (f : Participant F → Participant F) (tos : List ℕ) : SimBus F :=
  tos.foldl (fun b toIdx => b.update f toIdx) b

/-- What `pos_fn` of participant `i` returns. -/
def position (i : ℕ) : Option (PositionComponent F) :=
  b.participants[i]?.bind Participant.posFn

/-- `deliver_beacon_`. -/
def deliverBeacon (fromIdx : ℕ) (sv : StateVector F) : SimBus F :=
  match b.position fromIdx with
  | none => b
  | some fromPos => b.updateAll (Participant.receiveBeacon sv) (b.recipients fromIdx fromPos)

/-- The participant a directed message goes to: the first other one with that identity. -/
def directedRecipient (fromIdx : ℕ) (recipient : HierarchicalID) : Option ℕ :=
  (List.range b.participants.length).find? fun toIdx =>
    toIdx ≠ fromIdx ∧ (b.participants[toIdx]?.map Participant.identity) = some recipient

/-- `deliver_message_`. -/
def deliverMessage (fromIdx : ℕ) (msg : Message F) : SimBus F :=
  if isBroadcast msg.recipient then
    match b.position fromIdx with
    | none => b
    | some fromPos => b.updateAll (Participant.receiveMessage msg) (b.recipients fromIdx fromPos)
  else if b.participants.length ≤ fromIdx then b
  else
    match b.directedRecipient fromIdx msg.recipient with
    | none => b
    | some toIdx => b.update (Participant.receiveMessage msg) toIdx

/-- `drain_inbox_beacons_`: what is handed out, and the bus after it. -/
def drainInboxBeacons (idx : ℕ) : List (StateVector F) × SimBus F :=
  ((b.participants[idx]?.map Participant.inboundBeacons).getD [],
    b.update (fun p => { p with inboundBeacons := [] }) idx)

/-- `drain_inbox_messages_`. -/
def drainInboxMessages (idx : ℕ) : List (Message F) × SimBus F :=
  ((b.participants[idx]?.map Participant.inboundMessages).getD [],
    b.update (fun p => { p with inboundMessages := [] }) idx)

/-- The World of participant `idx` moves. -/
def setPosition (idx : ℕ) (pos : PositionComponent F) : SimBus F :=
  b.update (fun p => { p with posFn := some pos }) idx

/-- The World of participant `idx` takes another identity. -/
def setIdentity (idx : ℕ) (identity : HierarchicalID) : SimBus F :=
  b.update (fun p => { p with identity := identity }) idx

/-- The present positions of the participants. -/
def positions : List (PositionComponent F) :=
  b.participants.filterMap Participant.posFn

/-- **The states of a bus**, with the positions the grid was last built from. -/
inductive Reachable (range : F) : SimBus F → List (PositionComponent F) → Prop
  | init : Reachable range (SimBus.init range) []
  | createWorld {b : SimBus F} {filed : List (PositionComponent F)} (h : Reachable range b filed)
      (identity : HierarchicalID) (pos : PositionComponent F) :
      Reachable range (b.createWorld identity pos) filed
  | rebuildGrid {b : SimBus F} {filed : List (PositionComponent F)} (h : Reachable range b filed) :
      Reachable range b.rebuildGrid b.positions
  | setPosition {b : SimBus F} {filed : List (PositionComponent F)} (h : Reachable range b filed)
      (idx : ℕ) (pos : PositionComponent F) : Reachable range (b.setPosition idx pos) filed
  | setIdentity {b : SimBus F} {filed : List (PositionComponent F)} (h : Reachable range b filed)
      (idx : ℕ) (identity : HierarchicalID) : Reachable range (b.setIdentity idx identity) filed
  | deliverBeacon {b : SimBus F} {filed : List (PositionComponent F)} (h : Reachable range b filed)
      (fromIdx : ℕ) (sv : StateVector F) : Reachable range (b.deliverBeacon fromIdx sv) filed
  | deliverMessage {b : SimBus F} {filed : List (PositionComponent F)} (h : Reachable range b filed)
      (fromIdx : ℕ) (msg : Message F) : Reachable range (b.deliverMessage fromIdx msg) filed
  | drainInboxBeacons {b : SimBus F} {filed : List (PositionComponent F)}
      (h : Reachable range b filed) (idx : ℕ) : Reachable range (b.drainInboxBeacons idx).2 filed
  | drainInboxMessages {b : SimBus F} {filed : List (PositionComponent F)}
      (h : Reachable range b filed) (idx : ℕ) : Reachable range (b.drainInboxMessages idx).2 filed

end SimBus

end MithAtomas
