import Xeqm.ServiceNodes.State

/-!
# Quorums

How `service_node_list.cpp` draws quorums: the seeded shuffles, the entropy of
the pulse quorum with the window that caches it, and the obligations,
checkpointing and blink quorums of a block.
-/

namespace Xeqm.ServiceNodes

open Cryptonote Lib Tools

/-- `pubkey_and_sninfo`. -/
abbrev NodeEntry := PublicKey × ServiceNodeInfo

/-- The number of a quorum type. -/
def quorumTypeCode : QuorumType → ℕ
  | .obligations => 0
  | .checkpointing => 1
  | .blink => 2
  | .pulse => 3

/-- `max_quorum_type_for_hf`, by number. -/
def maxQuorumTypeForHf (hfVersion : Hf) : QuorumType :=
  if hfVersion ≤ Hf.hf12Checkpointing then .obligations
  else if hfVersion < Hf.hf14Blink then .checkpointing
  else if hfVersion < Hf.hf16Pulse then .blink
  else .pulse

/-- `PULSE_QUORUM_NUM_VALIDATORS`. -/
def pulseQuorumNumValidators : ℕ := 11

/-- `PULSE_QUORUM_SIZE`. -/
def pulseQuorumSize : ℕ := pulseQuorumNumValidators + 1

/-- `PULSE_MIN_UNIQUE_OPERATORS`. -/
def pulseMinUniqueOperators : ℕ := pulseQuorumSize

/-- `PULSE_QUORUM_ENTROPY_LAG`. -/
def pulseQuorumEntropyLag : ℕ := 21

/-- `CHECKPOINT_INTERVAL`. -/
def checkpointInterval : ℕ := 4

/-- `REORG_SAFETY_BUFFER_BLOCKS_POST_HF12`. -/
def reorgSafetyBufferBlocksPostHf12 : ℕ := 11

/-- `CHECKPOINT_QUORUM_SIZE`. -/
def checkpointQuorumSize : ℕ := 20

/-- `BLINK_QUORUM_INTERVAL`. -/
def blinkQuorumInterval : ℕ := 5

/-- `BLINK_EXPIRY_BUFFER`. -/
def blinkExpiryBuffer : ℕ := 45

/-- `BLINK_SUBQUORUM_SIZE`. -/
def blinkSubquorumSize : ℕ := 10

/-- `BLINK_MIN_VOTES`. -/
def blinkMinVotes : ℕ := 7

/-- A number from its little-endian bytes. -/
def ofLittleEndian (bytes : List UInt8) : ℕ := bytes.foldr (fun b n => n * 256 + b.toNat) 0

/-- The first eight bytes of a hash as a number. -/
def hashSeed (hash : Hash) : UInt64 := UInt64.ofNat (ofLittleEndian (hash.bytes.take 8))

/-- The `i`-th 32-bit word of a hash. -/
def hashWord (hash : Hash) (i : ℕ) : UInt32 :=
  UInt32.ofNat (ofLittleEndian ((hash.bytes.drop (4 * i)).take 4))

section Random

variable {σ : Type} (rng : Twister σ)

/-- `quorum_rng`: the generator state that a quorum is drawn with. -/
def quorumRng (hfVersion : Hf) (hash : Hash) (type : QuorumType) : σ :=
  if hfVersion ≥ Hf.hf16Pulse then
    rng.seededSeq (UInt32.ofNat (quorumTypeCode type) :: (List.range 8).map (hashWord hash))
  else rng.seeded (hashSeed hash + UInt64.ofNat (quorumTypeCode type))

/-- `uniform_distribution_portable`, where a call that does not return is a fault. -/
def draw (state : σ) (n : ℕ) : Except Fault (ℕ × σ) :=
  match uniformDistributionPortable rng state n with
  | some drawn => .ok drawn
  | none => .error .hang

/-- Swaps two elements of a list. -/
def swapAt {α : Type} (l : List α) (i j : ℕ) : List α :=
  match l[i]?, l[j]? with
  | some a, some b => (l.set i b).set j a
  | _, _ => l

/-- `shuffle_portable`. -/
def shufflePortable {α : Type} (state : σ) (l : List α) : Except Fault (List α) := do
  let shuffled ← (List.range' 1 (l.length - 1)).foldlM
    (fun (acc : List α × σ) i => do
      let drawn ← draw rng acc.2 (i + 1)
      pure (swapAt acc.1 i drawn.1, drawn.2))
    (l, state)
  pure shuffled.1

/-- `generate_shuffled_service_node_index_list`. With a sublist the first part of
the result is drawn from the front of the list only. -/
def generateShuffledServiceNodeIndexList (hfVersion : Hf) (listSize : ℕ) (blockHash : Hash)
    (type : QuorumType) (sublistSize sublistUpTo : ℕ) : Except Fault (List ℕ) := do
  let indices := List.range listSize
  let state := quorumRng rng hfVersion blockHash type
  if (0 < sublistSize ∧ sublistSize < listSize) ∧ (0 < sublistUpTo ∧ sublistUpTo < listSize) then
    let front ← shufflePortable rng state (indices.take sublistUpTo)
    let indices := front ++ indices.drop sublistUpTo
    let back ← shufflePortable rng state (indices.drop sublistSize)
    pure (indices.take sublistSize ++ back)
  else shufflePortable rng state indices

end Random

/-! ## Pulse -/

/-- The entropy of one block in `make_pulse_entropy_from_blocks`. -/
def pulseEntropyFromBlock (crypto : Crypto) (pulseRound : UInt8) (block : Block) : Hash :=
  crypto.cnFastHash (pulseRound ::
    (if block.hasPulse then block.pulse.randomValue.bytes else block.hash.bytes))

/-- The walk of `get_pulse_entropy_for_next_block` down from a block, for so many
blocks. The blocks found in the last part of the walk are returned, lowest one
first. -/
def pulseEntropyBlocks (db : ChainDb) : ℕ → Hash → List Block → Option (List Block)
  | 0, _, blocks => some blocks
  | left + 1, prevHash, blocks =>
    match db.findBlock prevHash with
    | none => none
    | some block =>
      pulseEntropyBlocks db left block.prevId
        (if left + 1 ≤ pulseQuorumSize then block :: blocks else blocks)

/-- `get_pulse_entropy_for_next_block`: empty where a block is missing. -/
def getPulseEntropyForNextBlock (crypto : Crypto) (db : ChainDb) (topHash : Hash)
    (pulseRound : UInt8) : List Hash :=
  match db.findBlock topHash with
  | none => []
  | some top =>
    if top.height < pulseQuorumEntropyLag then []
    else
      match pulseEntropyBlocks db pulseQuorumEntropyLag top.prevId [] with
      | none => []
      | some blocks => blocks.map (pulseEntropyFromBlock crypto pulseRound)

/-- `pulse_entropy_feeder`. -/
structure PulseEntropyFeeder where
  init : Bool := false
  pulseRound : UInt8 := 0
  lastHash : Hash := 0
  data : List Hash := List.replicate (pulseQuorumEntropyLag + 2) 0

/-- The walk that seeds the window of the feeder, for so many blocks. -/
def seedWindow (crypto : Crypto) (db : ChainDb) (pulseRound : UInt8) :
    ℕ → Hash → List Hash → Option (List Hash)
  | 0, _, window => some window
  | left + 1, hash, window =>
    match db.findBlock hash with
    | none => none
    | some block =>
      seedWindow crypto db pulseRound left block.prevId
        (pulseEntropyFromBlock crypto pulseRound block :: window)

/-- `pulse_entropy_feeder::add_block`. -/
def PulseEntropyFeeder.addBlock (feeder : PulseEntropyFeeder) (crypto : Crypto) (db : ChainDb)
    (block : Block) : PulseEntropyFeeder :=
  if block.majorVersion < Hf.hf16Pulse then feeder
  else if block.hash = feeder.lastHash then feeder
  else if !feeder.init ∨ feeder.pulseRound ≠ block.pulse.round ∨
      feeder.lastHash ≠ block.prevId then
    match seedWindow crypto db block.pulse.round (pulseQuorumEntropyLag + 2) block.hash [] with
    | none => {}
    | some window =>
      { init := true, pulseRound := block.pulse.round, lastHash := block.hash, data := window }
  else
    { feeder with
      lastHash := block.hash
      data := feeder.data.drop 1 ++ [pulseEntropyFromBlock crypto block.pulse.round block] }

/-- `pulse_entropy_feeder::get_window`. -/
def PulseEntropyFeeder.getWindow (feeder : PulseEntropyFeeder) : List Hash :=
  if feeder.init then feeder.data.take pulseQuorumSize else []

/-- `pulse_candidates_sorter`, as a number for each node. -/
def pulseSortRank (node : NodeEntry) : ℕ :=
  (node.2.pulseSorter.lastHeightValidatingInQuorum.toNat * 2 ^ 8 +
    node.2.pulseSorter.quorumIndex.toNat) * 2 ^ 256 + node.1.toNat

/-- The first node of each operator. -/
def dedupOperators : List AccountPublicAddress → List NodeEntry → List NodeEntry
  | _, [] => []
  | seen, node :: rest =>
    if node.2.operatorAddress ∈ seen then dedupOperators seen rest
    else node :: dedupOperators (node.2.operatorAddress :: seen) rest

/-- `std::sort` by `pulse_candidates_sorter`. -/
def sortPulseCandidates (nodes : List NodeEntry) : List NodeEntry :=
  nodes.insertionSort (fun a b => pulseSortRank a ≤ pulseSortRank b)

/-- The candidates that `update_from_block` collects for the pulse quorum of a block:
sorted, then without the leader in the first round, and one for each operator from
HF22 on. -/
def pulseCandidates (hfVersion : Hf) (pulseRound : UInt8) (leader : PublicKey)
    (active : List NodeEntry) : List NodeEntry :=
  let sorted := sortPulseCandidates active
  let others := if pulseRound = 0 then sorted.eraseP (fun node => node.1 = leader) else sorted
  if hfVersion ≥ Hf.hf22SnPolicy then dedupOperators [] others else others

section PulseQuorum

variable {σ : Type} (rng : Twister σ)

/-- The loop that moves the drawn validators to the front, from the `i`-th one on. -/
def drawPulseValidators (hfVersion : Hf) (partitionIndex : ℕ) :
    ℕ → List Hash → List NodeEntry → Except Fault (List NodeEntry)
  | _, [], candidates => .ok candidates
  | i, entropy :: rest, candidates => do
    let drawn ← draw rng (quorumRng rng hfVersion entropy .pulse)
      (min partitionIndex (candidates.length - i))
    drawPulseValidators hfVersion partitionIndex (i + 1) rest
      (swapAt candidates i (i + drawn.1))

/-- The validators among the candidates that are left when the producer is drawn. -/
def pulseValidators (hfVersion : Hf) (entropy : List Hash) (candidates : List NodeEntry) :
    Except Fault (List PublicKey) := do
  let partitionIndex := sizeSub candidates.length 1 / 2
  let ordered ←
    if partitionIndex = 0 then .ok candidates
    else drawPulseValidators rng hfVersion partitionIndex 0 entropy candidates
  if ordered.length < pulseQuorumNumValidators then .error .outOfBounds
  else .ok ((ordered.take pulseQuorumNumValidators).map Prod.fst)

/-- `generate_pulse_quorum_with_candidates`. -/
def generatePulseQuorumWithCandidates (conf : NetworkConfig) (leader : PublicKey) (hfVersion : Hf)
    (activeSize : ℕ) (candidates : List NodeEntry) (entropy : List Hash) (pulseRound : UInt8) :
    Except Fault Quorum :=
  if activeSize < conf.pulseMinServiceNodes then .ok {}
  else if entropy.length ≠ pulseQuorumSize then .ok {}
  else if hfVersion ≥ Hf.hf22SnPolicy ∧ candidates.length < pulseMinUniqueOperators then .ok {}
  else if pulseRound = 0 then do
    let validators ← pulseValidators rng hfVersion (entropy.drop 1) candidates
    .ok { workers := [leader], validators := validators }
  else do
    let drawn ← draw rng (quorumRng rng hfVersion (entropy.headD 0) .pulse) candidates.length
    match candidates[drawn.1]? with
    | none => .error .outOfBounds
    | some producer =>
      let validators ← pulseValidators rng hfVersion (entropy.drop 1)
        (candidates.eraseIdx drawn.1)
      .ok { workers := [producer.1], validators := validators }

/-- `generate_pulse_quorum`: the leader is left out before the candidates are sorted. -/
def generatePulseQuorum (conf : NetworkConfig) (leader : PublicKey) (hfVersion : Hf)
    (active : List NodeEntry) (entropy : List Hash) (pulseRound : UInt8) :
    Except Fault Quorum :=
  let candidates := active.filter (fun node => node.1 ≠ leader ∨ pulseRound > 0)
  let sorted := sortPulseCandidates candidates
  let chosen := if hfVersion ≥ Hf.hf22SnPolicy then dedupOperators [] sorted else sorted
  generatePulseQuorumWithCandidates rng conf leader hfVersion active.length chosen entropy
    pulseRound

/-- `verify_pulse_quorum_sizes`. -/
def verifyPulseQuorumSizes (quorum : Quorum) : Bool :=
  quorum.workers.length = 1 ∧ quorum.validators.length = pulseQuorumNumValidators

/-! ## The other quorums -/

/-- Reads the vectors of active and decommissioned nodes as one list. -/
def nodeAt (active : List NodeEntry) (decomm : List PublicKey) (i : ℕ) :
    Except Fault PublicKey :=
  match (active.map Prod.fst ++ decomm)[i]? with
  | some key => .ok key
  | none => .error .outOfBounds

/-- The validators from HF22 on: in the order of the indices, one for each
operator, each with its position. -/
def uniqueValidators (active : List NodeEntry) (numValidators : ℕ) :
    List (ℕ × ℕ) → List AccountPublicAddress → List (PublicKey × ℕ) → List (PublicKey × ℕ)
  | [], _, chosen => chosen
  | (j, k) :: rest, seen, chosen =>
    if chosen.length < numValidators then
      match active[j]? with
      | none => uniqueValidators active numValidators rest seen chosen
      | some node =>
        if node.2.operatorAddress ∈ seen then
          uniqueValidators active numValidators rest seen chosen
        else uniqueValidators active numValidators rest (node.2.operatorAddress :: seen)
          (chosen ++ [(node.1, k)])
    else chosen

/-- Fills a quorum from a list of shuffled indices. -/
def fillQuorum (hfVersion : Hf) (active : List NodeEntry) (decomm : List PublicKey)
    (indices : List ℕ) (numValidators numWorkers : ℕ) : Except Fault Quorum :=
  if hfVersion ≥ Hf.hf22SnPolicy ∧ numValidators > 0 then do
    let chosen := uniqueValidators active numValidators indices.zipIdx [] []
    let free := (indices.zipIdx.drop numValidators).filter (fun (_, k) => k ∉ chosen.map Prod.snd)
    let workers ← (free.take numWorkers).mapM (fun (j, _) => nodeAt active decomm j)
    .ok { validators := chosen.map Prod.fst, workers := workers }
  else do
    let validators ← (indices.take numValidators).mapM (nodeAt active [])
    let workers ← ((indices.drop numValidators).take numWorkers).mapM (nodeAt active decomm)
    .ok { validators := validators, workers := workers }

variable (state : State) (active : List NodeEntry) (decomm : List PublicKey) (hfVersion : Hf)

/-- The obligations quorum of `generate_other_quorums`. -/
def obligationsQuorum : Except Fault Quorum := do
  let total := active.length + decomm.length
  let numValidators := min active.length 10
  let indices ← generateShuffledServiceNodeIndexList rng hfVersion total state.blockHash
    .obligations numValidators active.length
  let remaining := total - numValidators
  fillQuorum hfVersion active decomm indices numValidators
    (min remaining (max 50 (remaining / 100)))

/-- The checkpointing quorum, `none` off the interval. -/
def checkpointingQuorum (nettype : NetworkType) : Except Fault (Option Quorum) :=
  if (state.height + reorgSafetyBufferBlocksPostHf12) % checkpointInterval ≠ 0 then .ok none
  else do
    let total :=
      if nettype = .testnet ∧ state.height < 85357 then active.length + decomm.length
      else active.length
    if total ≥ checkpointQuorumSize then
      let indices ← generateShuffledServiceNodeIndexList rng hfVersion total state.blockHash
        .checkpointing 0 0
      let quorum ← fillQuorum hfVersion active decomm indices
        (min indices.length checkpointQuorumSize) 0
      .ok (some quorum)
    else .ok (some {})

/-- The blink quorum, `none` off the interval: nodes about to unlock are left out. -/
def blinkQuorum : Except Fault (Option Quorum) :=
  if state.height % blinkQuorumInterval ≠ 0 then .ok none
  else do
    let activeUntil := state.height + blinkExpiryBuffer
    let eligible := (active.zipIdx.filter (fun (node, _) =>
      node.2.requestedUnlockHeight = 0 ∨ node.2.requestedUnlockHeight.toNat > activeUntil)).map
      Prod.snd
    if eligible.length ≥ blinkMinVotes then
      let indices ← shufflePortable rng (quorumRng rng hfVersion state.blockHash .blink) eligible
      let quorum ← fillQuorum hfVersion active decomm indices
        (min indices.length blinkSubquorumSize) 0
      .ok (some quorum)
    else .ok (some {})

/-- `generate_other_quorums`: the quorums of a state with the pulse quorum it has. -/
def generateOtherQuorums (nettype : NetworkType) : Except Fault QuorumManager := do
  let maxType := quorumTypeCode (maxQuorumTypeForHf hfVersion)
  let obligations ← obligationsQuorum rng state active decomm hfVersion
  let checkpointing ←
    if maxType ≥ quorumTypeCode .checkpointing then
      checkpointingQuorum rng state active decomm hfVersion nettype
    else .ok none
  let blink ←
    if maxType ≥ quorumTypeCode .blink then blinkQuorum rng state active decomm hfVersion
    else .ok none
  .ok { state.quorums with obligations := some obligations, checkpointing, blink }

end PulseQuorum

end Xeqm.ServiceNodes
