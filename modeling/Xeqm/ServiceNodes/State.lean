import Xeqm.Lib.Effect
import Xeqm.Lib.KeyMap
import Xeqm.Cryptonote.Crypto
import Xeqm.Rewards.Database
import Xeqm.ServiceNodes.Rules

/-!
# The state of the service node list

`service_node_list::state_t`, what it reaches through its back pointer to the
list (the uptime proofs, the block database and the rewards database), and the
primitive updates of the node map. The iteration order of an unordered map is
not specified by the source; here it is the order of the keys.
-/

namespace Xeqm.ServiceNodes

open Cryptonote Lib Rewards

/-- `quorum_type`. -/
inductive QuorumType
  | obligations
  | checkpointing
  | blink
  | pulse
  deriving DecidableEq

/-- `quorum`. -/
structure Quorum where
  validators : List PublicKey := []
  workers : List PublicKey := []
  deriving DecidableEq

/-- `quorum_manager`. -/
structure QuorumManager where
  obligations : Option Quorum := none
  checkpointing : Option Quorum := none
  blink : Option Quorum := none
  pulse : Option Quorum := none
  deriving DecidableEq

/-- `quorum_manager::get`. -/
def QuorumManager.get (quorums : QuorumManager) : QuorumType → Option Quorum
  | .obligations => quorums.obligations
  | .checkpointing => quorums.checkpointing
  | .blink => quorums.blink
  | .pulse => quorums.pulse

/-- `key_image_blacklist_entry`. -/
structure KeyImageBlacklistEntry where
  version : UInt8 := 1
  keyImage : KeyImage
  unlockHeight : UInt64
  amount : UInt64
  deriving DecidableEq

/-- `recently_removed_node::type_t`. -/
inductive RemovalType
  | voluntaryExit
  | deregister
  | purged
  deriving DecidableEq

/-- `recently_removed_node`. -/
structure RecentlyRemovedNode where
  height : UInt64
  liquidationHeight : UInt64
  type : RemovalType
  publicIp : UInt32
  qnetPort : UInt16
  version : UInt16 × UInt16 × UInt16
  serviceNodePubkey : PublicKey
  info : ServiceNodeInfo
  deriving DecidableEq

/-- `unconfirmed_l2_tx`. -/
structure UnconfirmedL2Tx where
  heightAdded : UInt64
  confirmations : UInt32
  denials : UInt32
  deriving DecidableEq

/-- `state_t`. -/
structure State where
  height : ℕ := 0
  blockHash : Hash := 0
  onlyLoadedQuorums : Bool := false
  serviceNodesInfos : KeyMap PublicKey ServiceNodeInfo := OrdSet.empty
  keyImageBlacklist : List KeyImageBlacklistEntry := []
  x25519Map : KeyMap X25519PublicKey PublicKey := OrdSet.empty
  blsMap : KeyMap BlsPublicKey PublicKey := OrdSet.empty
  quorums : QuorumManager := {}
  blockLeader : PublicKey := 0
  unconfirmedL2Txes : KeyMap Hash UnconfirmedL2Tx := OrdSet.empty
  recentlyRemovedNodes : List RecentlyRemovedNode := []
  /-- The requirement set by the L2 contract, zero for the default one. -/
  stakingRequirement : UInt64 := 0
  deriving DecidableEq

/-- `uptime_proof::Proof`, as far as a removed node remembers it. -/
structure UptimeProof where
  version : UInt16 × UInt16 × UInt16 := (0, 0, 0)
  publicIp : UInt32 := 0
  qnetPort : UInt16 := 0
  deriving DecidableEq

/-- `proof_info`. Of a participation history only the write index is kept, which
a reset sets to zero. -/
structure ProofInfo where
  proof : Option UptimeProof := some {}
  timestamp : UInt64 := 0
  effectiveTimestamp : UInt64 := 0
  pulseParticipation : ℕ := 0
  checkpointParticipation : ℕ := 0
  timestampParticipation : ℕ := 0
  timesyncStatus : ℕ := 0
  deriving DecidableEq

/-- What `set_service_node_proof` writes to the block database. -/
structure StoredProof where
  timestamp : UInt64
  proof : UptimeProof
  deriving DecidableEq

/-- What all states of one list share. -/
structure Shared where
  /-- `service_node_list::proofs`. -/
  proofs : KeyMap PublicKey ProofInfo := OrdSet.empty
  /-- The proofs in the block database. -/
  storedProofs : KeyMap PublicKey StoredProof := OrdSet.empty
  /-- The rewards database. -/
  sqlite : RewardsDb := {}
  deriving DecidableEq

/-- A state under update and what it can reach. -/
structure World where
  state : State
  shared : Shared
  deriving DecidableEq

/-- The exceptions an update can end with, and a loop without end. -/
inductive Fault
  | invalidRegistration (what : String)
  | duplicateReservedAddress
  | notAnEd25519Key
  | l2VotesMismatch
  | txNotFound
  | noStateChangeData
  | blockNotFound
  | txNotInBlock
  | ethTxNotFound
  | ethTxRepeated
  | nodeNotFound
  | nullQuorum
  | outOfBounds
  | transition
  | checkpointQuorumNotFound
  | invalidCheckpoint
  | noRoundTimings
  | invalidBlockComponents
  | sqlOutOfSync
  | pulseQuorumNotGenerated
  | parentStateNotFound
  | parentHashMismatch
  | swarm (fault : SwarmFault)
  | sql (fault : DbFault)
  | hang
  deriving DecidableEq

/-- A computation on a state. What it wrote before an exception stays written. -/
abbrev UpdateM := EStateM Fault World

/-- The block database, with `none` for a lookup that fails. -/
structure ChainDb where
  /-- `get_block_from_height`. -/
  getBlockFromHeight : ℕ → Option Block
  /-- `find_block_in_db`, which also looks at alternative blocks. -/
  findBlock : Hash → Option Block
  /-- `get_tx`. -/
  getTx : Hash → Option Transaction

/-- What stays fixed while a block is processed. -/
structure Chain (σ : Type) where
  net : Network
  crypto : Crypto
  db : ChainDb
  swarms : SwarmRuntime σ
  /-- `boost::random::mt19937_64`, the generator of the quorums. -/
  quorumRng : Tools.Twister σ
  /-- `m_rescanning`. -/
  rescanning : Bool := false
  /-- `db.is_read_only()`. -/
  readOnly : Bool := false
  /-- Whether there is a rewards database. -/
  hasSqlite : Bool := true
  /-- Whether a rescan holds the transaction of the rewards database. -/
  rescanTx : Bool := false
  /-- `m_store_quorum_history`: how many old quorums are kept. -/
  storeQuorumHistory : ℕ := 0

/-- An empty block database. -/
def emptyChainDb : ChainDb := ⟨fun _ => none, fun _ => none, fun _ => none⟩

/-- A chain for concrete runs. -/
def acceptingChain (net : Network) (db : ChainDb) : Chain Unit where
  net := net
  crypto := acceptingCrypto
  db := db
  swarms := firstDrawRuntime
  quorumRng := firstDrawRuntime.rng

/-- Writes to the state under update. -/
def modifyState (f : State → State) : UpdateM Unit :=
  modify (fun w => { w with state := f w.state })

/-- Writes to what the states share. -/
def modifyShared (f : Shared → Shared) : UpdateM Unit :=
  modify (fun w => { w with shared := f w.shared })

@[simp]
theorem modifyState_run (f : State → State) (w : World) :
    modifyState f w = .ok ⟨⟩ { w with state := f w.state } := rfl

@[simp]
theorem modifyState_bind_run {α : Type} (f : State → State) (k : PUnit → UpdateM α) (w : World) :
    (modifyState f >>= k) w = k ⟨⟩ { w with state := f w.state } := rfl

/-- The parameters of the network. -/
def Chain.config {σ : Type} (chain : Chain σ) : NetworkConfig := getConfig chain.net.nettype

/-- `state_t::get_staking_requirement`. -/
def State.getStakingRequirement (state : State) (net : Network) : UInt64 :=
  if getNetworkVersion net state.height ≥ ethBls ∧ state.stakingRequirement > 0 then
    state.stakingRequirement
  else
    getDefaultStakingRequirement net.nettype (getNetworkVersion net state.height)

/-- `state_t::find_public_key`, null when the BLS key is unknown. -/
def State.findPublicKey (state : State) (blsPubkey : BlsPublicKey) : PublicKey :=
  (state.blsMap.get? blsPubkey).getD 0

/-- `proofs[key]`, which adds an empty entry for an unknown key. -/
def Shared.proofOf (shared : Shared) (key : PublicKey) : ProofInfo :=
  (shared.proofs.get? key).getD {}

/-- Writes an entry of `proofs` and runs its `proof_info::store`, which skips the
database on a read-only one. -/
def storeProof {σ : Type} (chain : Chain σ) (key : PublicKey) (info : ProofInfo)
    (shared : Shared) : Shared :=
  let proof := info.proof.getD {}
  let shared := { shared with proofs := shared.proofs.set key { info with proof := some proof } }
  if chain.readOnly then shared
  else { shared with storedProofs := shared.storedProofs.set key ⟨info.timestamp, proof⟩ }

section Updates

variable {σ : Type} (chain : Chain σ)

/-- `snpk_to_xpk`. -/
def snpkToXpk (snpk : PublicKey) : UpdateM X25519PublicKey :=
  match chain.crypto.ed25519ToCurve25519 snpk with
  | some xpk => pure xpk
  | none => throw .notAnEd25519Key

/-- `state_t::insert_info`. -/
def insertInfo (pubkey : PublicKey) (info : ServiceNodeInfo) : UpdateM Unit := do
  modifyState (fun s => { s with serviceNodesInfos := s.serviceNodesInfos.set pubkey info })
  let w ← get
  if isHardForkAtLeast chain.net ethBls w.state.height then
    let xpk ← snpkToXpk chain pubkey
    modifyState (fun s => { s with
      x25519Map := s.x25519Map.set xpk pubkey
      blsMap := s.blsMap.set info.blsPublicKey pubkey })
  else pure ()

/-- The entry that `erase_info` keeps of a node that leaves. -/
def removedNode (w : World) (snpk : PublicKey) (info : ServiceNodeInfo) (exitType : RemovalType) :
    RecentlyRemovedNode :=
  let proof := ((w.shared.proofs.get? snpk).bind ProofInfo.proof).getD {}
  let exitBuffer := if exitType = .voluntaryExit then chain.config.ethExitBuffer
    else chain.config.ethDeregBuffer
  { height := UInt64.ofNat w.state.height
    liquidationHeight := UInt64.ofNat w.state.height + UInt64.ofNat exitBuffer
    type := exitType
    publicIp := proof.publicIp
    qnetPort := proof.qnetPort
    version := proof.version
    serviceNodePubkey := snpk
    info := info }

/-- `state_t::erase_info`. A purged node, and one without a BLS key, is forgotten
at once; any other one moves to the recently removed nodes. -/
def eraseInfo (snpk : PublicKey) (info : ServiceNodeInfo) (exitType : RemovalType) :
    UpdateM Unit := do
  let w ← get
  if isHardForkAtLeast chain.net ethBls w.state.height then
    if exitType = .purged ∨ info.blsPublicKey = 0 then
      let xpk ← snpkToXpk chain snpk
      modifyState (fun s => { s with
        x25519Map := s.x25519Map.remove xpk
        blsMap := s.blsMap.remove info.blsPublicKey })
    else
      modifyState (fun s => { s with
        recentlyRemovedNodes :=
          s.recentlyRemovedNodes ++ [removedNode chain w snpk info exitType] })
  else pure ()
  modifyState (fun s => { s with serviceNodesInfos := s.serviceNodesInfos.remove snpk })

/-- One entry of `initialize_alt_pk_maps`. -/
def addAltPk (snpk : PublicKey) (blsPubkey : BlsPublicKey) : UpdateM Unit := do
  let xpk ← snpkToXpk chain snpk
  modifyState (fun s => { s with
    x25519Map := s.x25519Map.emplace xpk snpk
    blsMap := s.blsMap.emplace blsPubkey snpk })

/-- `state_t::initialize_alt_pk_maps`. -/
def initializeAltPkMaps : UpdateM Unit := do
  let w ← get
  if isHardForkAtLeast chain.net ethBls w.state.height then
    w.state.serviceNodesInfos.toList.forM (fun e => addAltPk chain e.1 e.2.blsPublicKey)
    w.state.recentlyRemovedNodes.forM
      (fun node => addAltPk chain node.serviceNodePubkey node.info.blsPublicKey)
  else pure ()

/-- `proofs[key] = {}` followed by its `store`, as a registration does it unless
the list is rescanning. -/
def resetProof (key : PublicKey) : UpdateM Unit :=
  if chain.rescanning then pure ()
  else modifyShared (storeProof chain key {})

end Updates

end Xeqm.ServiceNodes
