import Xeqm.ServiceNodes.UpdateFromBlock

/-!
# The service node list over the chain

`service_node_list` itself: the current state, the recent history, the archive
and the quorums kept from older states, with the functions that move them along
the chain: `process_block` and `blockchain_detached`.
-/

namespace Xeqm.ServiceNodes

open Cryptonote Lib Rewards

/-- `quorums_by_height`. -/
structure QuorumsByHeight where
  height : ℕ
  quorums : QuorumManager
  deriving DecidableEq

/-- `service_node_list`, with what it reaches in the two databases. -/
structure ServiceNodeList where
  /-- `m_state`. -/
  state : State := {}
  /-- `state_history`. -/
  history : StateSet := OrdSet.empty
  /-- `state_archive`. -/
  archive : StateSet := OrdSet.empty
  /-- `alt_state`. -/
  altStates : KeyMap Hash State := OrdSet.empty
  /-- `old_quorum_states`. -/
  oldQuorums : List QuorumsByHeight := []
  /-- `pulse_entropy_feed`. -/
  feeder : PulseEntropyFeeder := {}
  shared : Shared := {}

/-- A computation on the list. -/
abbrev ListM := EStateM Fault ServiceNodeList

/-- Runs a transition on the current state. -/
def onMainState {α : Type} (m : UpdateM α) : ListM α := fun l =>
  match m ⟨l.state, l.shared⟩ with
  | .ok a w => .ok a { l with state := w.state, shared := w.shared }
  | .error e w => .error e { l with state := w.state, shared := w.shared }

/-- Runs a computation on the rewards database. -/
def onListSqlite {α : Type} (m : DbM α) : ListM α := onMainState (onSqlite m)

/-! ## Looking up quorums -/

/-- `offset_testing_quorum_height`. -/
def offsetTestingQuorumHeight (type : QuorumType) (height : ℕ) : ℕ :=
  if type = .checkpointing then height - reorgSafetyBufferBlocksPostHf12 else height

/-- `std::lower_bound` on the old quorums: the search in `[first, first + len)`,
with `len` as the bound on its steps. -/
def lowerBoundFrom (entries : List QuorumsByHeight) (height : ℕ) : ℕ → ℕ → ℕ → ℕ
  | 0, first, _ => first
  | _ + 1, first, 0 => first
  | fuel + 1, first, len + 1 =>
    let half := (len + 1) / 2
    match entries[first + half]? with
    | none => first
    | some entry =>
      if entry.height < height then
        lowerBoundFrom entries height fuel (first + half + 1) (len - half)
      else lowerBoundFrom entries height fuel first half

/-- The quorums that the old quorum states hold for a height. -/
def findOldQuorums (entries : List QuorumsByHeight) (height : ℕ) : Option QuorumManager :=
  match entries[lowerBoundFrom entries height entries.length 0 entries.length]? with
  | some entry => if entry.height = height then some entry.quorums else none
  | none => none

namespace ServiceNodeList

/-- The quorums that the list holds for a height. -/
def quorumsAt (l : ServiceNodeList) (height : ℕ) (includeOld : Bool) : Option QuorumManager :=
  if height = l.state.height then some l.state.quorums
  else
    match (l.history.find? height).or (l.archive.find? height) with
    | some state => some state.quorums
    | none => if includeOld then findOldQuorums l.oldQuorums height else none

/-- `get_quorum`. -/
def getQuorum (l : ServiceNodeList) (type : QuorumType) (height : ℕ) (includeOld : Bool) :
    Option Quorum :=
  (l.quorumsAt (offsetTestingQuorumHeight type height) includeOld).bind (fun q => q.get type)

/-- The quorums of alternative states that `get_quorum` also returns on request. -/
def altQuorums (l : ServiceNodeList) (type : QuorumType) (height : ℕ) : List Quorum :=
  (l.altStates.toList.filter
    (fun e => e.2.height = offsetTestingQuorumHeight type height)).filterMap
    (fun e => e.2.quorums.get type)

end ServiceNodeList

variable (conf : NetworkConfig) (height : ℕ)

/-! ## Adding a block -/

/-- `VOTE_LIFETIME + VOTE_OR_TX_VERIFY_HEIGHT_BUFFER`. -/
def keepQuorumOffset : ℕ := 65

/-- The next height at which a state is archived. -/
def nextArchiveHeight : ℕ :=
  let roundUp := height + (conf.historyArchiveInterval - 1)
  roundUp - roundUp % conf.historyArchiveInterval

/-- Whether only the quorums of a state are archived. -/
def isQuorumsOnlyHeight : Bool :=
  sizeSub (nextArchiveHeight conf height) keepQuorumOffset ≤ height ∧
    height ≤ sizeSub (nextArchiveHeight conf height) 1

/-- What is archived of a state of which only the quorums are needed. -/
def quorumRemnant (state : State) : State :=
  { height := state.height, onlyLoadedQuorums := true, quorums := state.quorums }

/-- The archive after the current state was offered to it. -/
def storeArchive (state : State) (archive : StateSet) : StateSet :=
  if isQuorumsOnlyHeight conf state.height then archive.insert (quorumRemnant state)
  else if state.height = nextArchiveHeight conf state.height then archive.insert state
  else archive

/-- `min_recent_height`. -/
def minRecentHeight : ℕ :=
  height - conf.historyRecentKeepWindow

/-- Below which height the archive is culled. -/
def archiveCullHeight : ℕ :=
  let cull := height - conf.historyArchiveKeepWindow
  let floored := cull - cull % conf.historyArchiveInterval
  if floored ≥ keepQuorumOffset then floored - keepQuorumOffset else floored

/-- Removes the first alternative states while they are old. -/
def cullAltStates (altStates : KeyMap Hash State) : KeyMap Hash State :=
  let old := altStates.toList.takeWhile (fun e => e.2.height < height)
  altStates.filter (fun e => e ∉ old)

/-- Drops the oldest entries beyond the number to keep. -/
def cullOldQuorums (keep : ℕ) (entries : List QuorumsByHeight) : List QuorumsByHeight :=
  entries.drop (entries.length - keep)

/-- What `process_block` does before the transition: it stores the current state
and culls what became too old. -/
def storeStates (keepOld : ℕ) (l : ServiceNodeList) : ServiceNodeList :=
  let height := l.state.height
  { l with
    history := (l.history.insert l.state).eraseBelow (minRecentHeight conf height)
    archive := (storeArchive conf l.state l.archive).eraseBelow (archiveCullHeight conf height)
    oldQuorums := cullOldQuorums keepOld
      (if keepOld = 0 then l.oldQuorums else l.oldQuorums ++ [⟨height, l.state.quorums⟩])
    altStates := cullAltStates (minRecentHeight conf height) l.altStates }

section

variable {σ : Type} (chain : Chain σ) (migrations : Migrations)

/-- `process_block`. The transition does not see the alternative states. -/
def processBlock (block : Block) (txs : List Transaction) : ListM BlockAddResult := do
  if block.majorVersion < Hf.hf9ServiceNodes then pure {}
  else
    modify (storeStates chain.config chain.storeQuorumHistory)
    modify (fun l => { l with feeder := l.feeder.addBlock chain.crypto chain.db block })
    let l ← get
    onMainState (updateFromBlock chain migrations ⟨l.history, l.archive, OrdSet.empty⟩ block txs
      (some l.feeder.getWindow))

/-! ## Detaching -/

/-- The height of a list without states: the one before service nodes begin. -/
def resetHeight (net : Network) : ℕ := sizeSub ((hardForkBegins net Hf.hf9ServiceNodes).getD 1) 1

/-- `reset(true)`. -/
def resetList : ListM Unit := do
  modify (fun l =>
    { state := { height := resetHeight chain.net }, feeder := l.feeder, shared := l.shared })
  if chain.readOnly then pure () else onListSqlite (resetDatabase chain.config)

/-- Whether the rewards database has a backup for a height. -/
def sqlDbHas (net : Network) (db : RewardsDb) (height : ℕ) (recent : Bool) : Bool :=
  height < (hardForkBegins net Hf.hf19RewardBatching).getD (2 ^ 64 - 1) ||
    db.height = height || batchPaymentsAccruedHasAny db recent height

/-- The recent state to go back to. -/
def recentBackup (l : ServiceNodeList) (target : ℕ) : Option State :=
  l.history.toList.reverse.find? (fun s => !s.onlyLoadedQuorums && s.height ≤ target &&
    sqlDbHas chain.net l.shared.sqlite s.height true)

/-- The archived state to go back to. -/
def archiveBackup (l : ServiceNodeList) (target : ℕ) : Option State :=
  let interval := chain.config.historyArchiveInterval
  l.archive.toList.reverse.find? (fun s => !s.onlyLoadedQuorums &&
    s.height ≤ target - target % interval && s.height % interval = 0 &&
    sqlDbHas chain.net l.shared.sqlite s.height false)

/-- Removes one zombie, a removed node without contributors, from the key maps. -/
def dropZombie (node : RecentlyRemovedNode) : UpdateM Unit := do
  let w ← get
  if w.state.serviceNodesInfos.contains node.serviceNodePubkey then pure ()
  else
    let xpk ← snpkToXpk chain node.serviceNodePubkey
    modifyState (fun s => { s with
      x25519Map := s.x25519Map.remove xpk
      blsMap := s.blsMap.remove node.info.blsPublicKey })

/-- `cleanup_zombies_from_state`. -/
def cleanupZombiesFromState : UpdateM Unit := do
  if (hardForkBegins chain.net Hf.hf21Eth).isNone then pure ()
  else
    let w ← get
    (w.state.recentlyRemovedNodes.filter (fun node => node.info.contributors = [])).forM
      (fun node => do
        dropZombie chain node
        modifyState (fun s => { s with
          recentlyRemovedNodes := s.recentlyRemovedNodes.erase node }))

/-- Makes a backup the current state. -/
def restoreState (backup : State) : ListM Unit := do
  modify (fun l => { l with state := backup })
  onMainState (cleanupZombiesFromState chain)

/-- Goes back to a state with the rewards database in the given way. -/
def detachSqlite (table : PaymentTableType) : ListM Unit := do
  let l ← get
  onListSqlite (blockchainDetached chain.config table l.state.height)

/-- `service_node_list::blockchain_detached`. A detach to a recent state leaves
the archive as it is, and the old quorums are kept unless the list is reset. -/
def detachList (height : ℕ) : ListM Unit := do
  let target := height - 1
  let l ← get
  if l.state.height = target ∧ l.shared.sqlite.height = target then pure ()
  else
    match recentBackup chain l target, archiveBackup chain l target with
    | some backup, _ => do
      restoreState chain backup
      modify (fun l => { l with history := l.history.eraseAbove backup.height })
      detachSqlite chain .recent
    | none, some backup => do
      modify (fun l => { l with history := OrdSet.empty })
      restoreState chain backup
      modify (fun l => { l with archive := l.archive.eraseAbove backup.height })
      detachSqlite chain .archive
    | none, none => do
      resetList chain
      detachSqlite chain .nil

end

end Xeqm.ServiceNodes
