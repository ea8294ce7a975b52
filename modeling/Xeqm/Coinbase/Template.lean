import Xeqm.Coinbase.MinerTx
import Xeqm.Lib.Runs

/-!
# Block templates

`create_block_template_internal` with its cache. A template is built from the chain, the pool and
the request. The last one that was built is kept, and a later request may be answered with it.
-/

namespace Xeqm.Coinbase

open Cryptonote Lib ServiceNodes Rewards List

/-- `get_ideal_block_version`. -/
def getIdealBlockVersion (net : Network) (height : ℕ) : Hf × UInt8 :=
  (getHardForks net).foldl (fun result fork =>
    let result := if fork.height ≤ height then (fork.version, fork.snodeRevision) else result
    if result.1 < Hf.hf19RewardBatching then (result.1, fork.version) else result) (0, 0)

/-! ## What a template is built from -/

/-- The fields of a `block` that a template sets. -/
structure TemplateBlock where
  majorVersion : Hf := Hf.hf7
  minorVersion : UInt8 := 7
  timestamp : UInt64 := 0
  prevId : Hash := 0
  pulse : PulseHeader := {}
  /-- `_height`. -/
  height : ℕ := 0
  reward : UInt64 := 0
  snWinnerTail : Blob 4 := 0
  l2Height : ℕ := 0
  l2Reward : UInt64 := 0
  l2Votes : List Bool := []
  minerTx : Option MinerTx := none
  /-- `oxen10_pulse_producer`. -/
  pulseProducer : PublicKey := 0
  txHashes : List Hash := []
  txEthCount : ℕ := 0
  deriving DecidableEq

/-- What `fill_block_template` selects from the pool. -/
structure FilledTemplate where
  txHashes : List Hash
  txEthCount : ℕ
  txsWeight : UInt64
  fee : UInt64
  expectedReward : UInt64

/-- What a template reads from the L2 tracker. -/
structure L2View where
  /-- `get_safe_height`. -/
  safeHeight : ℕ
  /-- The synced height of `get_l2_heights`. -/
  synced : ℕ
  /-- `get_reward_rate`. -/
  rewardRate : ℕ → Option UInt64
  /-- `l2_pending_state_votes`. -/
  pendingStateVotes : List Bool

/-- What a template reads from the chain. -/
structure TemplateChain where
  rules : CoinbaseRules
  /-- `get_tail_id`. -/
  tailHeight : ℕ
  tailId : Hash
  /-- `get_difficulty_for_next_block`, for Pulse or not. -/
  difficultyForNextBlock : Bool → ℕ
  /-- `m_current_block_cumul_weight_limit`. -/
  weightLimit : UInt64
  /-- `get_block_already_generated_coins` of the tail. -/
  alreadyGeneratedCoins : UInt64
  /-- `check_block_timestamp` with the median that it finds. -/
  checkBlockTimestamp : UInt64 → Bool × UInt64
  /-- `get_next_block_leader`. -/
  nextBlockLeader : Payout
  /-- `calc_batched_governance_reward`, if it succeeds. -/
  batchedGovernance : Option UInt64
  /-- `get_sn_payments`, if it does not throw. -/
  snPayments : Option (List BatchSnPayment)
  /-- `get_transaction_weight`. -/
  transactionWeight : MinerTx → UInt64
  /-- `l2_reward_range`. -/
  l2RewardRange : UInt64 × UInt64
  /-- `eth_consensus_reward`. -/
  ethConsensusReward : UInt64

/-- The version of the next block. -/
def TemplateChain.nextVersion (chain : TemplateChain) : Hf :=
  (getIdealBlockVersion chain.rules.net (chain.tailHeight + 1)).1

/-- What a template reads from the pool. -/
structure TemplatePool where
  cookie : UInt64
  /-- `fill_block_template`, on a chain and up to an L2 height. -/
  fillBlockTemplate : TemplateChain → Option ℕ → Option FilledTemplate

/-- `block_template_info`. -/
structure BlockTemplateInfo where
  isMiner : Bool := false
  minerAddress : AccountPublicAddress := nullAddress
  serviceNodePayout : Payout := {}

/-- What `create_block_template_internal` returns. -/
structure TemplateResponse where
  block : TemplateBlock
  difficulty : ℕ
  height : ℕ
  expectedReward : UInt64
  deriving DecidableEq

/-- `m_btc` and its companions. -/
structure TemplateCache where
  block : TemplateBlock
  address : AccountPublicAddress
  nonce : List UInt8
  height : ℕ
  expectedReward : UInt64
  poolCookie : UInt64
  deriving DecidableEq

/-! ## Building a template -/

/-- The loop that fits the miner transaction to the weight it was constructed for. The transaction
is padded with zero bytes; its length prefix may grow with them. Each construction has a number,
which selects its transaction key. -/
def fitMinerTx (weigh : MinerTx → UInt64) (construct : ℕ → UInt64 → Option (MinerTx × UInt64))
    (txsWeight : UInt64) : (tries : ℕ) → (number : ℕ) → (cumulativeWeight : UInt64) →
      Option (MinerTx × UInt64)
  | 0, _, _ => none
  | tries + 1, number, cumulativeWeight => do
    let (tx, rewards) ← construct number cumulativeWeight
    let coinbaseWeight := weigh tx
    if coinbaseWeight > cumulativeWeight - txsWeight then
      fitMinerTx weigh construct txsWeight tries (number + 1) (txsWeight + coinbaseWeight)
    else if coinbaseWeight < cumulativeWeight - txsWeight then
      let delta := cumulativeWeight - txsWeight - coinbaseWeight
      let padded := { tx with padding := delta.toNat }
      if cumulativeWeight = txsWeight + weigh padded then some (padded, rewards)
      else if cumulativeWeight + 1 ≠ txsWeight + weigh padded then none
      else
        let shorter := { tx with padding := delta.toNat - 1 }
        if cumulativeWeight = txsWeight + weigh shorter then some (shorter, rewards)
        else
          fitMinerTx weigh construct txsWeight tries (number + 1) (cumulativeWeight + (delta - 1))
    else if cumulativeWeight = txsWeight + coinbaseWeight then some (tx, rewards)
    else none

section

variable (chain : TemplateChain) (pool : TemplatePool) (l2Tracker : Option L2View) (now : UInt64)
  (keys : ℕ → SecretKey) (info : BlockTemplateInfo) (exNonce : List UInt8)

/-- The context of the miner transaction of a request. -/
def BlockTemplateInfo.context (batchedGovernance : UInt64) : MinerTxContext :=
  if info.isMiner then
    { minerBlockProducer := info.minerAddress, blockLeader := chain.nextBlockLeader
      batchedGovernance }
  else
    { pulse := true, pulseBlockProducer := info.serviceNodePayout
      blockLeader := chain.nextBlockLeader, batchedGovernance }

/-- The header of a template with the transactions of the pool, before the coinbase. -/
def templateHeader (l2Height : ℕ) (filled : FilledTemplate) : TemplateBlock :=
  let (majorVersion, minorVersion) :=
    getIdealBlockVersion chain.rules.net (chain.tailHeight + 1)
  let (fits, medianTimestamp) := chain.checkBlockTimestamp now
  { majorVersion, minorVersion
    timestamp := if fits then now else medianTimestamp
    prevId := chain.tailId
    txHashes := filled.txHashes
    txEthCount := filled.txEthCount
    snWinnerTail :=
      if majorVersion ≥ ethTransition then chain.nextBlockLeader.key.setWidth (8 * 4) else 0
    l2Height }

/-- The rest of a template from the ETH fork on: there is no miner transaction. -/
def ethTemplate (tracker : L2View) (block : TemplateBlock) : Option TemplateBlock :=
  if tracker.synced < block.l2Height then none
  else
    (tracker.rewardRate block.l2Height).map (fun actualReward =>
      { block with
        l2Reward :=
          if actualReward < chain.l2RewardRange.1 then chain.l2RewardRange.1
          else min actualReward chain.l2RewardRange.2
        reward := chain.ethConsensusReward
        l2Votes := tracker.pendingStateVotes
        height := chain.tailHeight + 1 })

/-- The miner transaction of a template and the block reward. -/
def templateMinerTx (hfVersion : Hf) (filled : FilledTemplate) : Option (MinerTx × UInt64) := do
  let height := chain.tailHeight + 1
  let batchedGovernance ← chain.batchedGovernance
  let snRwds ← if hfVersion ≥ Hf.hf19RewardBatching then chain.snPayments else some []
  let construct (number : ℕ) (weight : UInt64) : Option (MinerTx × UInt64) :=
    constructMinerTx chain.rules (keys number) height (chain.weightLimit / 2)
      chain.alreadyGeneratedCoins weight filled.fee (info.context chain batchedGovernance) snRwds
      exNonce hfVersion
  let (first, _) ← construct 0 filled.txsWeight
  fitMinerTx chain.transactionWeight construct filled.txsWeight 10 1
    (filled.txsWeight + chain.transactionWeight first)

/-- Builds a template: the response, and what is kept of it. The block is kept before the producer,
the reward and the height are set. Templates from the ETH fork on are not kept. -/
def buildTemplate : Option (TemplateResponse × Option TemplateCache) := do
  let height := chain.tailHeight + 1
  let hfVersion := chain.nextVersion
  let difficulty := chain.difficultyForNextBlock (!info.isMiner)
  guard (difficulty ≠ 0)
  if hfVersion ≥ ethBls then
    let tracker ← l2Tracker
    let filled ← pool.fillBlockTemplate chain (some tracker.safeHeight)
    let block ← ethTemplate chain tracker (templateHeader chain now tracker.safeHeight filled)
    some ({ block, difficulty, height, expectedReward := filled.expectedReward }, none)
  else
    let filled ← pool.fillBlockTemplate chain none
    let (tx, blockRewards) ← templateMinerTx chain keys info exNonce hfVersion filled
    let block := { templateHeader chain now 0 filled with minerTx := some tx }
    some (
      { block :=
          { block with
            pulseProducer := if info.isMiner then 0 else info.serviceNodePayout.key
            reward := blockRewards
            height }
        difficulty, height
        expectedReward := filled.expectedReward },
      some
        { block, address := info.minerAddress, nonce := exNonce, height
          expectedReward := filled.expectedReward
          poolCookie := pool.cookie })

end

/-! ## The cache -/

/-- The chain, the pool, the L2 tracker, the time and the cache. -/
structure TemplateState where
  chain : TemplateChain
  pool : TemplatePool
  /-- `m_l2_tracker`. -/
  l2Tracker : Option L2View := none
  now : UInt64
  /-- The cached template, if `m_btc_valid`. -/
  cache : Option TemplateCache := none

namespace TemplateState

variable (s : TemplateState)

variable (info : BlockTemplateInfo)

/-- The test of the cache. The addresses are compared the wrong way round. -/
def Matches (exNonce : List UInt8) (cache : TemplateCache) : Prop :=
  info.minerAddress ≠ cache.address ∧ cache.nonce = exNonce ∧ cache.poolCookie = s.pool.cookie ∧
    cache.block.prevId = s.chain.tailId
  deriving Decidable

/-- Whether a template for the next block needs the L2 tracker and there is none. -/
def lacksTracker : Bool :=
  s.chain.nextVersion ≥ ethBls && s.l2Tracker.isNone

/-- The answer from the cache, which takes the current time. -/
def answerCached (cache : TemplateCache) : Option TemplateResponse × TemplateState :=
  let block :=
    if cache.block.timestamp < s.now ∨ info.isMiner = false then
      { cache.block with timestamp := s.now }
    else cache.block
  (some
    { block
      difficulty := s.chain.difficultyForNextBlock (!info.isMiner)
      height := cache.height
      expectedReward := cache.expectedReward },
    { s with cache := some { cache with block } })

/-- The answer without the cache. What is built is kept, and nothing if the building fails. -/
def answerBuilt (exNonce : List UInt8) (keys : ℕ → SecretKey) :
    Option TemplateResponse × TemplateState :=
  match buildTemplate s.chain s.pool s.l2Tracker s.now keys info exNonce with
  | some (response, cache) => (some response, { s with cache })
  | none => (none, { s with cache := none })

/-- `create_block_template_internal`. The failure at a missing L2 tracker is an exception. -/
def createBlockTemplateInternal (exNonce : List UInt8) (keys : ℕ → SecretKey) :
    Option TemplateResponse × TemplateState :=
  if s.lacksTracker then (none, s)
  else
    match s.cache with
    | some cache =>
      if s.Matches info exNonce cache then s.answerCached info cache
      else s.answerBuilt info exNonce keys
    | none => s.answerBuilt info exNonce keys

end TemplateState

/-! ## Requests -/

/-- A request for a template. -/
inductive TemplateRequest
  /-- `create_next_miner_block_template`. -/
  | miner (address : AccountPublicAddress) (exNonce : List UInt8)
  /-- `create_next_pulse_block_template`. -/
  | pulse (blockProducer : Payout) (round : UInt8) (validatorBitset : UInt16)

namespace TemplateRequest

/-- The information that a request passes on. -/
def info : TemplateRequest → BlockTemplateInfo
  | miner address _ => { isMiner := true, minerAddress := address }
  | pulse blockProducer _ _ => { serviceNodePayout := blockProducer }

/-- The nonce that a request passes on. -/
def exNonce : TemplateRequest → List UInt8
  | miner _ exNonce => exNonce
  | pulse _ _ _ => []

/-- What a request sets in its block afterwards. -/
def finish : TemplateRequest → TemplateBlock → TemplateBlock
  | miner _ _, block => block
  | pulse _ round validatorBitset, block =>
    { block with pulse := { block.pulse with round, validatorBitset } }

end TemplateRequest

/-- The answer to a request. -/
def TemplateState.answer (s : TemplateState) (request : TemplateRequest) (keys : ℕ → SecretKey) :
    Option TemplateResponse × TemplateState :=
  let (response, s) := s.createBlockTemplateInternal request.info request.exNonce keys
  (response.map (fun response => { response with block := request.finish response.block }), s)

/-! ## Runs -/

/-- What happens to templates. A change of the chain invalidates the cache:
`handle_block_to_main_chain`, `pop_block_from_db` and `reset_and_set_genesis_block` do. -/
inductive TemplateStep
  | request (request : TemplateRequest) (keys : ℕ → SecretKey)
  | poolChange (pool : TemplatePool)
  | chainChange (chain : TemplateChain)
  | l2Change (l2Tracker : Option L2View)
  | clock (now : UInt64)

namespace TemplateState

variable (s : TemplateState)

/-- One step. -/
def step : TemplateStep → TemplateState
  | .request request keys => (s.answer request keys).2
  | .poolChange pool => { s with pool }
  | .chainChange chain => { s with chain, cache := none }
  | .l2Change l2Tracker => { s with l2Tracker }
  | .clock now => { s with now }

/-- Whether a step is a request that the cache answers. -/
def Hits : TemplateStep → Prop
  | .request request _ =>
    ∃ cache, s.cache = some cache ∧ s.Matches request.info request.exNonce cache
  | _ => False

/-- A template for a request that can be built with an empty cache, apart from its timestamp. The
key of a miner transaction is random, so any key will do. -/
def IsFresh (request : TemplateRequest) (response : TemplateResponse) : Prop :=
  ∃ keys fresh timestamp, (({ s with cache := none } : TemplateState).answer request keys).1 =
    some fresh ∧ response = { fresh with block := { fresh.block with timestamp } }

/-- Every answer is one that could be built with an empty cache. -/
def AnswersFresh : TemplateStep → Prop
  | .request request keys =>
    ∀ response, (s.answer request keys).1 = some response → s.IsFresh request response
  | _ => True

variable {s : TemplateState} {keys : ℕ → SecretKey} {info : BlockTemplateInfo}
  {response : TemplateResponse} {exNonce : List UInt8}

/-! ## What is built -/

/-- A template has the height of the next block. It is kept without, and from the ETH fork on it is
not kept. -/
theorem buildTemplate_spec {chain : TemplateChain} {pool : TemplatePool}
    {l2Tracker : Option L2View} {now : UInt64}
    {cache : Option TemplateCache}
    (h : buildTemplate chain pool l2Tracker now keys info exNonce = some (response, cache)) :
    response.block.height = chain.tailHeight + 1 ∧
      ∀ kept, cache = some kept → kept.block.height = 0 ∧ kept.address = info.minerAddress ∧
        kept.nonce = exNonce ∧ chain.nextVersion < ethBls ∧
        kept.block.minerTx = response.block.minerTx := by
  unfold buildTemplate at h
  obtain ⟨-, -, h⟩ := Option.bind_eq_some_iff.mp h
  split at h
  · obtain ⟨tracker, -, h⟩ := Option.bind_eq_some_iff.mp h
    obtain ⟨filled, -, h⟩ := Option.bind_eq_some_iff.mp h
    obtain ⟨block, hblock, h⟩ := Option.bind_eq_some_iff.mp h
    cases h
    unfold ethTemplate at hblock
    split at hblock
    · cases hblock
    · obtain ⟨reward, -, rfl⟩ := Option.map_eq_some_iff.mp hblock
      exact ⟨rfl, fun kept hkept => nomatch hkept⟩
  · rename_i hbefore
    obtain ⟨filled, -, h⟩ := Option.bind_eq_some_iff.mp h
    obtain ⟨⟨tx, rewards⟩, -, h⟩ := Option.bind_eq_some_iff.mp h
    cases h
    refine ⟨rfl, fun kept hkept => ?_⟩
    cases hkept
    exact ⟨rfl, rfl, rfl, UInt8.not_le.mp hbefore, rfl⟩

/-- What a request sets afterwards is neither the height nor the miner transaction. -/
theorem finish_height {request : TemplateRequest} {block : TemplateBlock} :
    (request.finish block).height = block.height := by
  cases request <;> rfl

theorem finish_minerTx {request : TemplateRequest} {block : TemplateBlock} :
    (request.finish block).minerTx = block.minerTx := by
  cases request <;> rfl

/-! ## The invariant of the cache -/

/-- A cached template was built on the current chain for the address and the nonce that are cached
with it. -/
def CacheSound (s : TemplateState) : Prop :=
  ∀ cache, s.cache = some cache → ∃ pool l2Tracker now keys info response timestamp,
    info.minerAddress = cache.address ∧
      buildTemplate s.chain pool l2Tracker now keys info cache.nonce =
        some (response, some { cache with block := { cache.block with timestamp } })

variable {cache : TemplateCache}

/-- A cached block has no height yet, and the next block is before the ETH fork. -/
theorem CacheSound.height (h : s.CacheSound) (hcache : s.cache = some cache) :
    cache.block.height = 0 ∧ s.chain.nextVersion < ethBls := by
  obtain ⟨pool, l2Tracker, now, keys, info, response, timestamp, -, hbuilt⟩ := h cache hcache
  obtain ⟨hheight, -, -, hversion, -⟩ := (buildTemplate_spec hbuilt).2 _ rfl
  exact ⟨hheight, hversion⟩

theorem answerBuilt_cacheSound {info : BlockTemplateInfo} {exNonce : List UInt8}
    {keys : ℕ → SecretKey} : (s.answerBuilt info exNonce keys).2.CacheSound := by
  unfold answerBuilt
  split
  · rename_i response cache hbuilt
    intro kept hkept
    cases hkept
    obtain ⟨-, haddress, hnonce, -⟩ := (buildTemplate_spec hbuilt).2 kept rfl
    rw [← hnonce] at hbuilt
    exact ⟨_, _, _, keys, info, response, kept.block.timestamp, haddress.symm, hbuilt⟩
  · exact fun kept hkept => nomatch hkept

theorem CacheSound.answerCached (h : s.CacheSound)
    (hcache : s.cache = some cache) :
    (s.answerCached info cache).2.CacheSound := by
  obtain ⟨pool, l2Tracker, now, keys, from_, response, timestamp, haddress, hbuilt⟩ :=
    h cache hcache
  intro kept hkept
  cases hkept
  refine ⟨pool, l2Tracker, now, keys, from_, response, timestamp, haddress, ?_⟩
  split
  · exact hbuilt
  · exact hbuilt

theorem CacheSound.createBlockTemplateInternal (h : s.CacheSound) (info : BlockTemplateInfo)
    (exNonce : List UInt8) (keys : ℕ → SecretKey) :
    (s.createBlockTemplateInternal info exNonce keys).2.CacheSound := by
  unfold TemplateState.createBlockTemplateInternal
  split
  · exact h
  split
  · rename_i cache hcache
    split
    · exact h.answerCached hcache
    · exact answerBuilt_cacheSound
  · exact answerBuilt_cacheSound

theorem CacheSound.step (h : s.CacheSound) (step : TemplateStep) : (s.step step).CacheSound := by
  cases step with
  | request _ keys => exact h.createBlockTemplateInternal _ _ keys
  | poolChange => exact h
  | chainChange => exact fun cache hcache => nomatch hcache
  | l2Change => exact h
  | clock => exact h

/-! ## Answers -/

variable {request : TemplateRequest}

/-- A request that the cache does not answer is answered as with an empty cache. -/
theorem answer_of_not_hits (h : ¬s.Hits (.request request keys)) :
    (s.answer request keys).1 =
      (({ s with cache := none } : TemplateState).answer request keys).1 := by
  have hbuilt : (s.answerBuilt request.info request.exNonce keys).1 =
      (({ s with cache := none } : TemplateState).answerBuilt request.info request.exNonce
        keys).1 := by
    unfold answerBuilt
    dsimp only
  have hinternal : (s.createBlockTemplateInternal request.info request.exNonce keys).1 =
      (({ s with cache := none } : TemplateState).createBlockTemplateInternal request.info
        request.exNonce keys).1 := by
    change (if s.lacksTracker then _ else _ : Option TemplateResponse × TemplateState).1 =
      (if s.lacksTracker then _ else _ : Option TemplateResponse × TemplateState).1
    split
    · rfl
    split
    · rename_i cache hcache
      rw [if_neg (fun hmatch => h ⟨cache, hcache, hmatch⟩)]
      exact hbuilt
    · exact hbuilt
  unfold answer
  dsimp only
  rw [hinternal]

/-- What is built with an empty cache has the height of the next block. -/
theorem IsFresh.height (h : s.IsFresh request response) :
    response.block.height = s.chain.tailHeight + 1 := by
  obtain ⟨keys, fresh, timestamp, hfresh, rfl⟩ := h
  unfold answer createBlockTemplateInternal at hfresh
  dsimp only at hfresh
  obtain ⟨built, hbuilt, rfl⟩ := Option.map_eq_some_iff.mp hfresh
  rw [finish_height]
  split at hbuilt
  · cases hbuilt
  unfold answerBuilt at hbuilt
  split at hbuilt
  · rename_i response cache hbuild
    cases hbuilt
    exact (buildTemplate_spec hbuild).1
  · cases hbuilt

/-- What the cache answers was built on the same chain for another address. It has the miner
transaction that was built for that one, and no height. -/
theorem CacheSound.answer_of_hits (h : s.CacheSound)
    (hhits : s.Hits (.request request keys)) :
    ∃ response, (s.answer request keys).1 = some response ∧ response.block.height = 0 ∧
      ∃ pool l2Tracker now keys info built kept,
        info.minerAddress ≠ request.info.minerAddress ∧
        buildTemplate s.chain pool l2Tracker now keys info request.exNonce = some (built, kept) ∧
        response.block.minerTx = built.block.minerTx := by
  obtain ⟨cache, hcache, hmatch⟩ := hhits
  obtain ⟨hheight, hversion⟩ := h.height hcache
  obtain ⟨pool, l2Tracker, now, keys₀, info, built, timestamp, haddress, hbuilt⟩ := h cache hcache
  have htx := (buildTemplate_spec hbuilt).2 _ rfl
  have htracker : s.lacksTracker = false := by
    unfold lacksTracker
    rw [decide_eq_false (UInt8.not_le.mpr hversion), Bool.false_and]
  have hinternal : s.createBlockTemplateInternal request.info request.exNonce keys =
      s.answerCached request.info cache := by
    unfold TemplateState.createBlockTemplateInternal
    rw [htracker, if_neg Bool.false_ne_true, hcache]
    dsimp only
    rw [if_pos hmatch]
  have hserved (block : TemplateBlock) :
      (if block.timestamp < s.now ∨ request.info.isMiner = false then
        { block with timestamp := s.now } else block).height = block.height ∧
      (if block.timestamp < s.now ∨ request.info.isMiner = false then
        { block with timestamp := s.now } else block).minerTx = block.minerTx := by
    split <;> exact ⟨rfl, rfl⟩
  unfold answer
  rw [hinternal]
  refine ⟨_, rfl, ?_, pool, l2Tracker, now, keys₀, info, built, _, ?_, hmatch.2.1 ▸ hbuilt, ?_⟩
  · exact finish_height.trans ((hserved cache.block).1.trans hheight)
  · rw [haddress]
    exact hmatch.1.symm
  · exact finish_minerTx.trans ((hserved cache.block).2.trans htx.2.2.2.2)

/-- A request is answered with a fresh template exactly if the cache does not answer it. -/
theorem CacheSound.answersFresh_iff (h : s.CacheSound) (step : TemplateStep) :
    s.AnswersFresh step ↔ ¬s.Hits step := by
  cases step with
  | request request keys =>
    constructor
    · intro hfresh hhits
      obtain ⟨response, hanswer, hheight, -⟩ := h.answer_of_hits hhits
      have := (hfresh response hanswer).height
      omega
    · intro hmiss response hanswer
      rw [answer_of_not_hits hmiss] at hanswer
      exact ⟨keys, response, response.block.timestamp, hanswer, rfl⟩
  | poolChange _ | chainChange _ | l2Change _ | clock _ =>
    exact iff_of_true trivial not_false

/-- **Templates and their cache.** Along any run of requests, changes of the pool and changes of the
chain that starts without a cached template, every answer equals, apart from its timestamp, one that
could be built with an empty cache exactly if no request is ever answered from the cache. A request
is answered from the cache if the cached template was built for another address with the same nonce,
pool cookie and parent. -/
theorem answers_fresh_iff (hempty : s.cache = none) (steps : List TemplateStep) :
    AllAlong step AnswersFresh s steps ↔ AllAlong step (fun s step => ¬s.Hits step) s steps := by
  have hsound : s.CacheSound := fun cache hcache => nomatch hempty.symm.trans hcache
  exact allAlong_congr (fun _ step h => h.step step) (fun _ step h => h.answersFresh_iff step)
    hsound steps

/-- The cached address is that of the last request, or it was cached before. -/
theorem cached_address
    (h : (s.createBlockTemplateInternal info exNonce keys).2.cache = some cache) :
    cache.address = info.minerAddress ∨
      ∃ before, s.cache = some before ∧ cache.address = before.address := by
  have hbuilt (h : (s.answerBuilt info exNonce keys).2.cache = some cache) :
      cache.address = info.minerAddress := by
    unfold answerBuilt at h
    split at h
    · rename_i response kept hbuild
      exact ((buildTemplate_spec hbuild).2 cache h).2.1
    · cases h
  unfold createBlockTemplateInternal at h
  split at h
  · exact .inr ⟨cache, h, rfl⟩
  · split at h
    · rename_i before hbefore
      split at h
      · cases h
        exact .inr ⟨before, hbefore, rfl⟩
      · exact .inl (hbuilt h)
    · exact .inl (hbuilt h)

/-- As long as all requests name one address, the cache answers none of them. -/
theorem answers_fresh_of_one_address (address : AccountPublicAddress) (hsound : s.CacheSound)
    (hcached : ∀ cache, s.cache = some cache → cache.address = address)
    {steps : List TemplateStep}
    (hone : ∀ request keys, .request request keys ∈ steps → request.info.minerAddress = address) :
    AllAlong step AnswersFresh s steps := by
  induction steps generalizing s with
  | nil => trivial
  | cons first _ ih =>
    refine ⟨(hsound.answersFresh_iff first).mpr ?_, ih (hsound.step first) ?_
      (fun request keys hmem => hone request keys (mem_cons_of_mem _ hmem))⟩
    · intro hhits
      cases first with
      | request request keys =>
        obtain ⟨cache, hcache, hmatch⟩ := hhits
        exact hmatch.1 ((hone request keys mem_cons_self).trans (hcached cache hcache).symm)
      | poolChange _ | chainChange _ | l2Change _ | clock _ => exact hhits
    · intro cache hcache
      cases first with
      | request request keys =>
        obtain hnew | ⟨before, hbefore, hsame⟩ := cached_address hcache
        · exact hnew.trans (hone request keys mem_cons_self)
        · exact hsame.trans (hcached before hbefore)
      | chainChange => cases hcache
      | poolChange _ | l2Change _ | clock _ => exact hcached cache hcache

end TemplateState

/-! ## An instance -/

/-- A node on a fake chain at a version, with one transaction in its pool. -/
def freshTemplates (hfVersion : Hf) : TemplateState where
  chain :=
    { rules :=
        { net := ⟨.fakechain, [⟨hfVersion, 0, 0⟩]⟩
          governanceWallet := fun _ => nullAddress
          outputKey := fun address _ _ => some address.spendPublicKey
          registeredForTransition := fun _ _ => false
          formulaV8 := fun _ => 0
          minerOutputKey := fun _ address _ => some address.spendPublicKey }
      tailHeight := 1, tailId := 1
      difficultyForNextBlock := fun _ => 1
      weightLimit := 600000, alreadyGeneratedCoins := premine
      checkBlockTimestamp := fun _ => (true, 0)
      nextBlockLeader := nullPayout
      batchedGovernance := some 0, snPayments := some []
      transactionWeight := fun tx => 100 + UInt64.ofNat tx.padding
      l2RewardRange := (0, 0), ethConsensusReward := 0 }
  pool :=
    { cookie := 0
      fillBlockTemplate := fun _ _ =>
        some { txHashes := [9], txEthCount := 0, txsWeight := 100, fee := 5, expectedReward := 5 } }
  now := 1

/-- The outputs of the miner transaction of an answer. -/
def outputsOf (answer : Option TemplateResponse × TemplateState) :
    Option (List (PublicKey × UInt64)) :=
  (answer.1.bind (fun response => response.block.minerTx)).map MinerTx.vout

/-- The producer and the reward of an answer. -/
def rewardOf (answer : Option TemplateResponse × TemplateState) : Option (PublicKey × UInt64) :=
  answer.1.map (fun response => (response.block.pulseProducer, response.block.reward))

/-- Keys that do not matter. -/
def anyKeys : ℕ → SecretKey := fun _ => 0

/-- A request of one miner, of another miner, and of a Pulse producer. -/
def firstMiner : TemplateRequest := .miner ⟨1, 1⟩ []

@[inherit_doc firstMiner]
def secondMiner : TemplateRequest := .miner ⟨2, 2⟩ []

@[inherit_doc firstMiner]
def pulseProducer : TemplateRequest :=
  .pulse { key := 7, payouts := [⟨⟨3, 3⟩, stakingPortions⟩] } 1 0

/-- After the request of the first miner, the second one is given the template that pays the first.
A Pulse producer is given it too, and from HF19 on it has neither the producer nor the reward. -/
theorem secondMiner_pays_firstMiner :
    (freshTemplates Hf.hf18).cache = none ∧
    outputsOf ((freshTemplates Hf.hf18).answer secondMiner anyKeys) =
      some [(2, 5), (0, 16500000000)] ∧
    outputsOf (((freshTemplates Hf.hf18).step (.request firstMiner anyKeys)).answer secondMiner
      anyKeys) = some [(1, 5), (0, 16500000000)] ∧
    rewardOf ((freshTemplates Hf.hf19RewardBatching).answer pulseProducer anyKeys) =
      some (7, 8250000005) ∧
    rewardOf (((freshTemplates Hf.hf19RewardBatching).step (.request firstMiner anyKeys)).answer
      pulseProducer anyKeys) = some (0, 0) ∧
    ¬AllAlong TemplateState.step TemplateState.AnswersFresh (freshTemplates Hf.hf18)
      [.request firstMiner anyKeys, .request secondMiner anyKeys] := by
  refine ⟨rfl, by decide +kernel, by decide +kernel, by decide +kernel, by decide +kernel, ?_⟩
  rintro ⟨-, hsecond, -⟩
  have hstart : (freshTemplates Hf.hf18).CacheSound := fun cache hcache => nomatch hcache
  refine ((hstart.step _).answersFresh_iff _).mp hsecond ?_
  obtain ⟨cache, hcache, hmatch⟩ : ∃ cache,
      ((freshTemplates Hf.hf18).step (.request firstMiner anyKeys)).cache = some cache ∧
      TemplateState.Matches ((freshTemplates Hf.hf18).step (.request firstMiner anyKeys))
        secondMiner.info secondMiner.exNonce cache :=
    ⟨_, rfl, by decide +kernel⟩
  exact ⟨cache, hcache, hmatch⟩

/-- Two requests of one miner are both answered with what is built. -/
theorem answers_fresh_firstMiner :
    AllAlong TemplateState.step TemplateState.AnswersFresh (freshTemplates Hf.hf18)
      [.request firstMiner anyKeys, .request firstMiner anyKeys] := by
  refine (TemplateState.answers_fresh_iff rfl _).mpr ⟨?_, ?_, trivial⟩
  · rintro ⟨cache, hcache, -⟩
    cases hcache
  · rintro ⟨cache, hcache, hmatch⟩
    have haddress : (((freshTemplates Hf.hf18).step (.request firstMiner anyKeys)).cache.map
        TemplateCache.address) = some ⟨1, 1⟩ := by decide +kernel
    rw [hcache] at haddress
    exact hmatch.1 (Option.some.inj haddress).symm

theorem firstMiner_alone :
    AllAlong TemplateState.step TemplateState.AnswersFresh (freshTemplates Hf.hf18)
      (replicate 2 (.request firstMiner anyKeys)) := by
  apply TemplateState.answers_fresh_of_one_address ⟨1, 1⟩
  · rintro _ ⟨⟩
  · rintro _ ⟨⟩
  · rintro _ _ h
    cases eq_of_mem_replicate h
    rfl

end Xeqm.Coinbase
