import Xeqm.Lib.OrdSet
import Xeqm.Common.Random

/-!
# Swarm assignment

The storage swarms of `service_node_swarm.cpp`. A swarm map sends swarm ids to
the service nodes of that swarm; nodes that were just registered wait under a
reserved id. `calcSwarmChanges` places the waiting nodes, feeds starving swarms
from wealthy ones, founds new swarms from the excess, and dissolves the swarms
that stay too small.

The random draws go through `uniformDistributionPortable`; `std::sort` may order
swarms of equal size in any way, so the sorting routine is a parameter.
-/

namespace Xeqm.ServiceNodes

open Lib Tools

/-- `swarm_id_t`. -/
abbrev SwarmId := UInt64

/-- `UNASSIGNED_SWARM_ID`: the id under which nodes wait for a swarm. -/
def unassignedSwarmId : SwarmId := 18446744073709551615

/-- `MAX_ID`: the largest id of a real swarm. -/
def maxId : SwarmId := unassignedSwarmId - 1

/-- `MIN_SWARM_SIZE`. -/
def minSwarmSize : ℕ := 5

/-- `IDEAL_SWARM_MARGIN`. -/
def idealSwarmMargin : ℕ := 2

/-- `EXCESS_BASE`. -/
def excessBase : ℕ := minSwarmSize

/-- `NEW_SWARM_SIZE`. -/
def newSwarmSize : ℕ := minSwarmSize + idealSwarmMargin

/-- `FILL_SWARM_LOWER_PERCENTILE`. -/
def fillSwarmLowerPercentile : ℕ := 25

/-- `DECOMMISSIONED_REDISTRIBUTION_LOWER_PERCENTILE`. -/
def decommissionedRedistributionLowerPercentile : ℕ := 0

/-- `STEALING_SWARM_UPPER_PERCENTILE`. -/
def stealingSwarmUpperPercentile : ℕ := 75

/-- `swarm_snode_map_t`: the nodes of every swarm, in order of swarm id. -/
abbrev SwarmSnodeMap (Key : Type) := OrdSet (fun e : SwarmId × List Key => e.1.toNat)

/-- `swarm_size`. -/
structure SwarmSize where
  swarmId : SwarmId
  size : ℕ
  deriving DecidableEq

/-- `excess_pool_snode`. -/
structure ExcessPoolSnode (Key : Type) where
  publicKey : Key
  swarmId : SwarmId

/-- How a call can fail to return: `std::out_of_range` from a container's `at`,
or a loop without end. -/
inductive SwarmFault
  | outOfRange
  | hang
  deriving DecidableEq

/-- The standard library below the swarm code: the seeded generator and a
sorting routine that orders swarms by size and ties in any way. -/
structure SwarmRuntime (σ : Type) where
  /-- `std::mt19937_64`. -/
  rng : Twister σ
  /-- `std::sort` by swarm size. -/
  sortBySize : List SwarmSize → List SwarmSize
  /-- Sorting permutes. -/
  sortBySize_perm : ∀ sizes, (sortBySize sizes).Perm sizes
  /-- Sorting orders by size. -/
  sortBySize_sorted : ∀ sizes, (sortBySize sizes).Pairwise (fun a b => a.size ≤ b.size)

/-- A runtime for concrete runs: insertion sort, and a generator that always
draws the first alternative. -/
def firstDrawRuntime : SwarmRuntime Unit where
  rng :=
    { seeded := fun _ => ()
      seededSeq := fun _ => ()
      next := fun _ => (0, ())
      patience := fun _ => 1
      lower_half := fun _ => rfl }
  sortBySize := List.insertionSort (fun a b => a.size ≤ b.size)
  sortBySize_perm := fun sizes => List.perm_insertionSort _ sizes
  sortBySize_sorted := fun sizes =>
    haveI : IsTrans SwarmSize (fun a b => a.size ≤ b.size) := ⟨fun _ _ _ => le_trans⟩
    haveI : Std.Total (fun a b : SwarmSize => a.size ≤ b.size) := ⟨fun _ _ => le_total _ _⟩
    List.pairwise_insertionSort _ sizes

/-- Subtraction of unsigned 64-bit sizes, which wraps around below zero. -/
def sizeSub (a b : ℕ) : ℕ := (a + 2 ^ 64 - b) % 2 ^ 64

/-- `percentile * (sizes.size() - 1) / 100` in unsigned 64-bit arithmetic. -/
def percentileIndex (percentile : ℕ) (sizes : List SwarmSize) : ℕ :=
  percentile * sizeSub sizes.length 1 % 2 ^ 64 / 100

/-- The scan of `get_new_swarm_id` over neighbouring ids: the widest gap so far
and the index of its left end. -/
def widestGap (ids : List SwarmId) : UInt64 × ℕ :=
  (List.range (ids.length - 1)).foldl
    (fun (maxDist, bestIdx) idx =>
      let dist := ids.getD (idx + 1) 0 - ids.getD idx 0
      if dist > maxDist then (dist, idx) else (maxDist, bestIdx))
    (0, 0)

/-- The widest gap on the circle of ids, on which 0 follows `maxId`: the gap from
the last id around to the first one counts as well. -/
def widestCircleGap (ids : List SwarmId) (front back : SwarmId) : UInt64 × ℕ :=
  let (maxDist, bestIdx) := widestGap ids
  let dist := maxId - back + front + 1
  if dist > maxDist then (dist, ids.length - 1) else (maxDist, bestIdx)

/-- Half a gap further than `best` on the circle of ids. -/
def halveGap (best : SwarmId) (maxDist : UInt64) : SwarmId :=
  let diff := maxDist / 2
  let toMax := maxId - best
  if diff > toMax then diff - toMax - 1 else best + diff

section Maps

variable {Key : Type}

variable (m : SwarmSnodeMap Key)

/-- `get_new_swarm_id`: the middle of the widest gap between swarm ids. -/
def getNewSwarmId : SwarmId :=
  let ids := m.toList.map Prod.fst
  match ids.head?, ids.getLast? with
  | some front, some back =>
    let gap := widestCircleGap ids front back
    halveGap (ids.getD gap.2 0) gap.1
  | _, _ => 0

/-- `calc_excess`: the nodes above the base size, summed over the swarms. The
signed margin of the source is cut at zero, as subtraction of naturals is. -/
def calcExcess : ℕ :=
  (m.toList.map (fun e => e.2.length - excessBase)).sum

/-- `calc_threshold`: the excess from which a new swarm is founded. -/
def calcThreshold : ℕ := newSwarmSize + m.size * idealSwarmMargin

/-- `get_excess_pool`: every node of a swarm above the threshold, and the excess
of those swarms. A threshold below the minimum leaves the excess as it was. -/
def getExcessPool (threshold : ℕ) (m : SwarmSnodeMap Key) (excess : ℕ) :
    List (ExcessPoolSnode Key) × ℕ :=
  if threshold < minSwarmSize then ([], excess)
  else
    let rich := m.toList.filter (fun e => threshold < e.2.length)
    (rich.flatMap (fun e => e.2.map (fun pk => ⟨pk, e.1⟩)),
      (rich.map (fun e => e.2.length - minSwarmSize)).sum)

/-- Whether some swarm is below the minimum size. -/
def hasStarvingSwarms : Bool :=
  m.toList.any (fun e => e.2.length < minSwarmSize)

/-- `calc_swarm_sizes` before sorting. -/
def swarmSizes : List SwarmSize :=
  m.toList.map (fun e => ⟨e.1, e.2.length⟩)

/-- `at(id).push_back(pk)`. -/
def pushSnode (id : SwarmId) (pk : Key) (m : SwarmSnodeMap Key) : SwarmSnodeMap Key :=
  m.modify id.toNat (fun e => (e.1, e.2 ++ [pk])) (fun _ => rfl)

/-- `remove_excess_snode_from_swarm`: erase every copy of the key from its swarm. -/
def removeExcessSnodeFromSwarm [DecidableEq Key] (snode : ExcessPoolSnode Key)
    (m : SwarmSnodeMap Key) : Except SwarmFault (SwarmSnodeMap Key) :=
  match m.find? snode.swarmId.toNat with
  | none => .error .outOfRange
  | some _ => .ok (m.modify snode.swarmId.toNat
      (fun e => (e.1, e.2.filter (· ≠ snode.publicKey))) (fun _ => rfl))

/-- The first part of `calc_swarm_changes`: take the waiting nodes out of the
map and ensure that there is a swarm to put them in. -/
def takeUnassigned : List Key × SwarmSnodeMap Key :=
  let unassigned := ((m.find? unassignedSwarmId.toNat).map Prod.snd).getD []
  let m := m.erase unassignedSwarmId.toNat
  (unassigned, if m.size = 0 then m.insert (getNewSwarmId (OrdSet.empty : SwarmSnodeMap Key), []) else m)

end Maps

section Calc

variable {Key σ : Type} [DecidableEq Key] (rt : SwarmRuntime σ)

/-- `uniform_distribution_portable` as the swarm code calls it. -/
def uniform (rng : σ) (n : ℕ) : Except SwarmFault (ℕ × σ) :=
  match uniformDistributionPortable rt.rng rng n with
  | none => .error .hang
  | some r => .ok r

/-- `pick_from_excess_pool`. -/
def pickFromExcessPool (pool : List (ExcessPoolSnode Key)) (rng : σ) :
    Except SwarmFault (ExcessPoolSnode Key × σ) := do
  let (idx, rng) ← uniform rt rng pool.length
  match pool[idx]? with
  | none => .error .outOfRange
  | some snode => .ok (snode, rng)

/-- The inner loop of `create_new_swarm_from_excess`: draw the nodes of the new
swarm one by one. `none` is the early return on an empty pool. -/
def drawNewSwarm : ℕ → List Key → SwarmSnodeMap Key → σ →
    Except SwarmFault (Option (List Key) × SwarmSnodeMap Key × σ)
  | 0, drawn, m, rng => .ok (some drawn, m, rng)
  | missing + 1, drawn, m, rng => do
    let pool := (getExcessPool excessBase m 0).1
    if pool.isEmpty then .ok (none, m, rng)
    else
      let (snode, rng) ← pickFromExcessPool rt pool rng
      let m ← removeExcessSnodeFromSwarm snode m
      drawNewSwarm missing (drawn ++ [snode.publicKey]) m rng

/-- The outer loop of `create_new_swarm_from_excess`, cut off after `fuel` rounds. -/
def createSwarmsLoop : ℕ → SwarmSnodeMap Key → σ →
    Except SwarmFault (SwarmSnodeMap Key × σ)
  | 0, _, _ => .error .hang
  | fuel + 1, m, rng =>
    if calcThreshold m ≤ calcExcess m then do
      match ← drawNewSwarm rt newSwarmSize [] m rng with
      | (none, m, rng) => .ok (m, rng)
      | (some snodes, m, rng) =>
        createSwarmsLoop fuel (m.insert (getNewSwarmId m, snodes)) rng
    else .ok (m, rng)

/-- `create_new_swarm_from_excess`. Every round lowers the excess, so the loop
needs no more rounds than the excess it starts with. -/
def createNewSwarmFromExcess (m : SwarmSnodeMap Key) (rng : σ) :
    Except SwarmFault (SwarmSnodeMap Key × σ) :=
  if hasStarvingSwarms m then .ok (m, rng)
  else createSwarmsLoop rt (calcExcess m + 1) m rng

/-- The last index of the run of sizes equal to the percentile value. -/
def upperIndex (sizes : List SwarmSize) (percentileIdx percentileValue : ℕ) : ℕ :=
  match (List.range' percentileIdx (sizes.length - percentileIdx)).find?
      (fun i => percentileValue < ((sizes[i]?).map SwarmSize.size).getD 0) with
  | some i => i - 1
  | none => sizeSub sizes.length 1

/-- `assign_snodes`: push each node to a random swarm among the smallest, and
found new swarms after each push. -/
def assignSnodes (percentile : ℕ) : List Key → SwarmSnodeMap Key → σ →
    Except SwarmFault (SwarmSnodeMap Key × σ)
  | [], m, rng => .ok (m, rng)
  | pk :: rest, m, rng => do
    let sizes := rt.sortBySize (swarmSizes m)
    let percentileIdx := percentileIndex percentile sizes
    match sizes[percentileIdx]? with
    | none => .error .outOfRange
    | some percentileEntry =>
      let (randomIdx, rng) ← uniform rt rng (upperIndex sizes percentileIdx percentileEntry.size + 1)
      match sizes[randomIdx]? with
      | none => .error .outOfRange
      | some target =>
        match m.find? target.swarmId.toNat with
        | none => .error .outOfRange
        | some _ =>
          let (m, rng) ← createNewSwarmFromExcess rt (pushSnode target.swarmId pk m) rng
          assignSnodes percentile rest m rng

/-- The size above which the Robin Hood round takes nodes, from the entry at the
stealing percentile. -/
def stealingThreshold (percentileEntry : SwarmSize) : ℕ :=
  max minSwarmSize (sizeSub percentileEntry.size 1)

/-- The do-while loop of the Robin Hood round for one poor swarm, cut off after
`fuel` passes. The flag is `insufficient_excess`. -/
def stealLoop (sizes : List SwarmSize) (poor : SwarmId) : ℕ → SwarmSnodeMap Key → σ →
    Except SwarmFault (Bool × SwarmSnodeMap Key × σ)
  | 0, _, _ => .error .hang
  | fuel + 1, m, rng => do
    match sizes[percentileIndex stealingSwarmUpperPercentile sizes]?, m.find? poor.toNat with
    | some percentileEntry, some poorEntry =>
      let pool := getExcessPool (stealingThreshold percentileEntry) m 0
      let deficit := sizeSub minSwarmSize poorEntry.2.length
      if pool.2 < deficit then .ok (true, m, rng)
      else
        let (snode, rng) ← pickFromExcessPool rt pool.1 rng
        let m ← removeExcessSnodeFromSwarm snode m
        let m := pushSnode poor snode.publicKey m
        if ((m.find? poor.toNat).map (fun e => e.2.length)).getD 0 < minSwarmSize then
          stealLoop sizes poor fuel m rng
        else .ok (false, m, rng)
    | _, _ => .error .outOfRange

/-- The Robin Hood round over the swarms in order of size. -/
def robinHoodRound (sizes : List SwarmSize) : List SwarmSize → SwarmSnodeMap Key → σ →
    Except SwarmFault (SwarmSnodeMap Key × σ)
  | [], m, rng => .ok (m, rng)
  | swarm :: rest, m, rng =>
    if minSwarmSize ≤ swarm.size then .ok (m, rng)
    else do
      match ← stealLoop rt sizes swarm.swarmId minSwarmSize m rng with
      | (true, m, rng) => .ok (m, rng)
      | (false, m, rng) => robinHoodRound sizes rest m rng

/-- The loop that dissolves starving swarms, cut off after `fuel` rounds. -/
def dissolveLoop : ℕ → SwarmSnodeMap Key → σ → Except SwarmFault (SwarmSnodeMap Key × σ)
  | 0, _, _ => .error .hang
  | fuel + 1, m, rng =>
    match m.toList.find? (fun e => e.2.length < minSwarmSize) with
    | none => .ok (m, rng)
    | some swarm => do
      let (m, rng) ← assignSnodes rt decommissionedRedistributionLowerPercentile swarm.2
        (m.erase swarm.1.toNat) rng
      dissolveLoop fuel m rng

/-- `calc_swarm_changes`. A round of the dissolving loop lowers the number of
starving swarms, so it needs no more rounds than there are swarms. -/
def calcSwarmChanges (m : SwarmSnodeMap Key) (seed : UInt64) :
    Except SwarmFault (SwarmSnodeMap Key) :=
  if m.size = 0 then .ok m
  else do
    let start := takeUnassigned m
    let (m, rng) ← assignSnodes rt fillSwarmLowerPercentile start.1 start.2 (rt.rng.seeded seed)
    let sizes := rt.sortBySize (swarmSizes m)
    let (m, rng) ← robinHoodRound rt sizes sizes m rng
    let (m, rng) ← createNewSwarmFromExcess rt m rng
    if 1 < m.size then
      let (m, _) ← dissolveLoop rt (m.size + 1) m rng
      .ok m
    else .ok m

end Calc

end Xeqm.ServiceNodes
