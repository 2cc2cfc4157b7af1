import LiteRt.Plugin.SliceClone

/-!
# Partitioning a subgraph

The two ways of grouping the ops a plugin selects into islands, `DisjointSets` and
`GetPartitionsFromFlatListV2` of `algo.cc`, and `PartitionSubgraph` of
`compiler_plugin.cc`, which outlines one island after the other. A hash map is the
list of its entries, in an order nothing is known about.
-/

namespace LiteRt.Plugin

open LiteRt.Lib LiteRt.Model

/-- `LiteRtOpWithPartitionIndex`. -/
abbrev OpWithPartitionIndex := OpId × UInt64

/-- The order in which the hash maps of `DisjointSets` are iterated. -/
structure HashOrder where
  partitionMap : List (UInt64 × List OpId) → List (UInt64 × List OpId)
  invertMap : List (OpId × List OpId) → List (OpId × List OpId)
  partitionMap_perm : ∀ l, (partitionMap l).Perm l
  invertMap_perm : ∀ l, (invertMap l).Perm l

/-! ## Weakly connected components -/

/-- `map_` of a `DisjointSets`. -/
abbrev ParentOf := InsertOrderMap OpId OpId

/-- `GetBucket`; the way to a bucket is no longer than the map. -/
def getBucket : Nat → ParentOf → OpId → Option (ParentOf × OpId)
  | 0, _, _ => none
  | n + 1, map, op => do
    let parent ← map.find? op
    if op ≠ parent then
      let (map, parent) ← getBucket n map parent
      pure (map.insertOrAssign op parent, parent)
    else pure (map, parent)

def insert (map : ParentOf) (op parent : OpId) : Option ParentOf := do
  let (map, parentBucket) ← getBucket map.length map parent
  let (map, opBucket) ← getBucket map.length map op
  if opBucket = parentBucket then pure map else pure (map.insertOrAssign opBucket parentBucket)

def getBuckets (order : HashOrder) (map : ParentOf) : Option (List (List OpId)) := do
  let (_, invertMap) ← (map.map Prod.fst).foldlM
    (fun (p : ParentOf × InsertOrderMap OpId (List OpId)) op => do
      let (map, bucket) ← getBucket p.1.length p.1 op
      pure (map, p.2.pushBack bucket op)) (map, [])
  pure ((order.invertMap invertMap).map Prod.snd)

def disjointSets (g : Ir) (ops : List OpId) : Option ParentOf :=
  let map : ParentOf := ops.foldl (fun map op => map.insertOrAssign op op) []
  ops.foldlM (fun map op =>
    (g.op op).outputs.foldlM (fun map output =>
      (g.tensor output).users.foldlM (fun map user =>
        if map.contains user.1 then insert map op user.1 else pure map) map) map) map

def getPartitionsFromFlatList (order : HashOrder) (g : Ir)
    (flatOpList : List OpWithPartitionIndex) : Option (List (List OpId)) :=
  let partitionMap := InsertOrderMap.group (flatOpList.map Prod.swap)
  (order.partitionMap partitionMap).foldlM (fun allBuckets entry => do
    let map ← disjointSets g entry.2
    let buckets ← getBuckets order map
    pure (allBuckets ++ buckets)) []

def groupPartitions (order : HashOrder) (g : Ir) (ops : List OpWithPartitionIndex) :
    Option (List (List OpId)) := getPartitionsFromFlatList order g ops

/-! ## Runs in execution order -/

/-- `op_to_partition_index`: the index an op is listed with last. -/
def opToPartitionIndex (ops : List OpWithPartitionIndex) (op : OpId) : Option UInt64 :=
  (ops.reverse.find? fun p => p.1 = op).map Prod.snd

/-- The largest index plus one, which wraps around. -/
def unselectedOpsPartitionIndex (ops : List OpWithPartitionIndex) : UInt64 :=
  ops.foldl (fun maxPartitionIndex op =>
    if maxPartitionIndex < op.2 then op.2 else maxPartitionIndex) 0 + 1

/-- The index of an op in `sorted_ops`. -/
def partitionIndex (ops : List OpWithPartitionIndex) (op : OpId) : UInt64 :=
  (opToPartitionIndex ops op).getD (unselectedOpsPartitionIndex ops)

/-- `partitions`, `current_partition` and `current_partition_index`. -/
structure RunState where
  partitions : List (List OpId) := []
  currentPartition : List OpId := []
  currentPartitionIndex : UInt64

/-- The loop over `sorted_ops`. -/
def runStep (unselected : UInt64) (s : RunState) (op : OpId × UInt64) : RunState :=
  let s :=
    if op.2 ≠ s.currentPartitionIndex then
      { partitions :=
          if s.currentPartition ≠ [] then s.partitions ++ [s.currentPartition] else s.partitions
        currentPartition := []
        currentPartitionIndex := op.2 }
    else s
  if s.currentPartitionIndex ≠ unselected then
    { s with currentPartition := s.currentPartition ++ [op.1] }
  else s

def getPartitionsFromFlatListV2 (ops : List OpWithPartitionIndex) (subgraph : Subgraph) :
    List (List OpId) :=
  let sortedOps := subgraph.ops.map fun op => (op, partitionIndex ops op)
  match sortedOps with
  | [] => []
  | front :: _ =>
    let s := sortedOps.foldl (runStep (unselectedOpsPartitionIndex ops))
      { currentPartitionIndex := front.2 }
    if s.currentPartition ≠ [] then s.partitions ++ [s.currentPartition] else s.partitions

def groupPartitionsV2 (ops : List OpWithPartitionIndex) (subgraph : Subgraph) :
    List (List OpId) := getPartitionsFromFlatListV2 ops subgraph

/-! ## Outlining the islands -/

/-- `LiteRtCompilerOptionsPartitionStrategy`. -/
inductive PartitionStrategy where
  | default
  | weaklyConnected
  deriving DecidableEq, Repr

/-- One round of the loop of `PartitionSubgraph`, on the graph, the subgraph and
`res_ops`. A `none` is an op that `DCE` has freed already. -/
def outlineIsland (bufferManager : Option ManagerId) (s : Ir × Subgraph × List OpId)
    (island : List OpId) : Option (Ir × Subgraph × List OpId) :=
  if ∀ op ∈ island, op ∈ s.2.1.ops then
    (outlinePartition s.1 s.2.1 { bufferManager := bufferManager } island).map fun r =>
      (r.ir, r.root, s.2.2 ++ [r.dispatchOp])
  else none

def outlineIslands (bufferManager : Option ManagerId) (g : Ir) (subgraph : Subgraph)
    (islands : List (List OpId)) : Option (Ir × Subgraph × List OpId) :=
  islands.foldlM (outlineIsland bufferManager) (g, subgraph, [])

def partitionSubgraph (strategy : PartitionStrategy) (order : HashOrder)
    (bufferManager : Option ManagerId) (g : Ir) (subgraph : Subgraph)
    (selectedOps : List OpWithPartitionIndex) : Option (Ir × Subgraph × List OpId) := do
  let islands ←
    match strategy with
    | .default => some (groupPartitionsV2 selectedOps subgraph)
    | .weaklyConnected => groupPartitions order g selectedOps
  outlineIslands bufferManager g subgraph islands

end LiteRt.Plugin
