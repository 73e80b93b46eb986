import MithAtomas.Comms.NeighbourTable

/-!
# Partition merging

`src/systems/partition_merge_system.cpp`: a sudden rise of the number of peers opens the merge
window.
-/

namespace MithAtomas

variable (F : Type)

/-- `PartitionMergeSystem::Params`. -/
structure PartitionMergeSystem.Params where
  partitionHealThreshold : UInt32
  mergeWindowS : F
  deriving DecidableEq, Repr

structure PartitionMergeSystem where
  params : PartitionMergeSystem.Params F
  lastPeerCount : UInt32 := 0
  healEvents : UInt64 := 0
  deriving DecidableEq, Repr

variable {F}

namespace PartitionMergeSystem

/-- `Params{}`. -/
def Params.default [NatCast F] : Params F where
  partitionHealThreshold := 2
  mergeWindowS := ((2 : ℕ) : F)

/-- The test for a heal event. -/
def heals (sys : PartitionMergeSystem F) (count : UInt32) : Bool :=
  count > sys.lastPeerCount && count - sys.lastPeerCount ≥ sys.params.partitionHealThreshold

/-- `tick`, with the new merge window. -/
def tick (sys : PartitionMergeSystem F) (entries : List (Entry F)) (mergeWindowRemainingS : F) :
    PartitionMergeSystem F × F :=
  let count := UInt32.ofNat entries.length
  if sys.heals count then
    ({ sys with healEvents := sys.healEvents + 1, lastPeerCount := count }, sys.params.mergeWindowS)
  else ({ sys with lastPeerCount := count }, mergeWindowRemainingS)

end PartitionMergeSystem

end MithAtomas
