import Mathlib.Data.UInt
import Xeqm.ServiceNodes.State

/-!
# Registrations

How `service_node_list.cpp` reads a registration and its stake from a
transaction, checks them and enters the new node into the list.
-/

namespace Xeqm.ServiceNodes

open Cryptonote Lib

variable (crypto : Crypto) (nettype : NetworkType) (hfVersion : Hf) (tx : Transaction)

/-- `registration_details`. -/
structure RegistrationDetails where
  serviceNodePubkey : PublicKey
  reserved : List (AccountPublicAddress × UInt64) := []
  fee : UInt64
  /-- The hard fork of the registration, or its expiry when it uses portions. -/
  hf : UInt64
  usesPortions : Bool
  signature : Signature := 0
  ethContributions : List ContributorV2 := []
  blsPubkey : BlsPublicKey := 0
  edSignature : Signature := 0

/-- `reg_tx_extract_fields`. -/
def regTxExtractFields : Option RegistrationDetails := do
  let registration ← tx.registration
  if registration.publicSpendKeys.length ≠ registration.publicViewKeys.length ∨
      registration.amounts.length ≠ registration.publicSpendKeys.length then
    none
  else
    let serviceNodePubkey ← tx.serviceNodePubkey
    let addresses := registration.publicSpendKeys.zipWith AccountPublicAddress.mk
      registration.publicViewKeys
    some {
      serviceNodePubkey := serviceNodePubkey
      reserved := addresses.zip registration.amounts
      fee := registration.fee
      hf := registration.hfOrExpiration
      usesPortions := registration.hfOrExpiration > 255
      signature := registration.signature }

/-- `eth_reg_v2_details`. -/
def ethRegV2Details (event : NewServiceNodeV2) : RegistrationDetails :=
  { serviceNodePubkey := event.snPubkey
    blsPubkey := event.blsPubkey
    ethContributions := event.contributors
    hf := UInt64.ofNat hfVersion.toNat
    usesPortions := false
    fee := event.fee
    edSignature := event.edSignature }

/-- The stakes that a registration reserves: those of the L2 event once they come
from there, except on the fake chain. -/
def extractAmounts (nettype : NetworkType) (reg : RegistrationDetails) :
    Except String (List UInt64) :=
  let maxContributors :=
    if hfVersion ≥ Hf.hf19RewardBatching then maxContributorsHf19 else maxContributorsV1
  if hfVersion ≥ ethBls ∧ nettype ≠ .fakechain then
    if reg.ethContributions = [] then .error "No operator contribution given"
    else if reg.reserved ≠ [] then
      .error "Operator contributions through oxen no longer an option"
    else if reg.ethContributions.length > maxContributors then .error "Too many contributors"
    else .ok (reg.ethContributions.map ContributorV2.amount)
  else
    if reg.reserved = [] then .error "No operator contribution given"
    else if reg.reserved.length > maxContributors then .error "Too many contributors"
    else .ok (reg.reserved.map Prod.snd)

/-- The checks of `validate_registration` on the amounts and the fee. -/
def validateStakesAndFee (stakingRequirement blockTimestamp : UInt64) (reg : RegistrationDetails)
    (amounts : List UInt64) : Except String Unit :=
  let validStakes :=
    if reg.usesPortions then checkServiceNodePortions hfVersion (reg.reserved.map Prod.snd)
    else checkServiceNodeStakes hfVersion stakingRequirement amounts
  let maxFee := if reg.usesPortions then stakingPortions else stakingFeeBasis
  if reg.fee > maxFee then .error s!"Operator fee is too high ({reg.fee} > {maxFee})"
  else if ¬ validStakes then
    .error ("Invalid " ++ (if reg.usesPortions then "portions" else "amounts") ++ ": \x7b" ++
      String.intercalate ", " (amounts.map toString) ++ "\x7d")
  else if reg.usesPortions ∧ reg.hf < blockTimestamp then
    .error s!"Registration expired ({reg.hf} < {blockTimestamp})"
  else .ok ()

/-- `validate_registration`. -/
def validateRegistration (nettype : NetworkType) (stakingRequirement : UInt64)
    (blockTimestamp : UInt64) (reg : RegistrationDetails) : Except String Unit :=
  if hfVersion = ethTransition then
    .error "New registrations are disabled during OXEN->SESH transition period"
  else if reg.usesPortions ∧ hfVersion ≥ Hf.hf19RewardBatching then
    .error "Portion-based registrations are not permitted in HF19+"
  else if ¬ reg.usesPortions ∧ reg.hf.toNat ≠ hfVersion.toNat ∧
      reg.hf.toNat ≠ Hf.hf19RewardBatching.toNat then
    .error (s!"Wrong registration hardfork {reg.hf}; you likely need to regenerate " ++
      s!"the registration for compatibility with hardfork {hfVersion}")
  else
    match extractAmounts hfVersion nettype reg with
    | .error what => .error what
    | .ok amounts =>
      validateStakesAndFee hfVersion stakingRequirement blockTimestamp reg amounts

/-- `get_registration_hash`. -/
def getRegistrationHash (reg : RegistrationDetails) : Hash :=
  crypto.cnFastHash (littleEndian 8 reg.fee.toNat ++
    reg.reserved.flatMap (fun (addr, amount) =>
      addr.spendPublicKey.bytes ++ addr.viewPublicKey.bytes ++ littleEndian 8 amount.toNat) ++
    littleEndian 8 reg.hf.toNat)

/-- `get_eth_registration_message_for_signing`. -/
def getEthRegistrationMessageForSigning (reg : RegistrationDetails) : List UInt8 :=
  reg.serviceNodePubkey.bytes ++ reg.blsPubkey.bytes

/-- `validate_registration_signature`. -/
def validateRegistrationSignature (reg : RegistrationDetails) : Except String Unit :=
  if reg.usesPortions ∨ reg.hf.toNat < ethBls.toNat then
    if ¬ crypto.checkKey reg.serviceNodePubkey then
      .error "Service Node Key is not a valid public key"
    else if ¬ crypto.checkSignature (getRegistrationHash crypto reg) reg.serviceNodePubkey
        reg.signature then
      .error "Registration signature verification failed for pubkey/hash"
    else .ok ()
  else if ¬ crypto.verifyEd25519 reg.edSignature (getEthRegistrationMessageForSigning reg)
      reg.serviceNodePubkey then
    .error "Registration signature verification failed for pubkey/blskey"
  else .ok ()

/-- `staking_num_lock_blocks`, from before infinite staking. -/
def stakingNumLockBlocks : ℕ :=
  match nettype with
  | .fakechain => 30
  | .testnet => (getConfig nettype).blocksIn (48 * hour)
  | _ => (getConfig nettype).blocksIn (14 * 24 * hour)

/-- `staking_components`. -/
structure StakingComponents where
  serviceNodePubkey : PublicKey
  address : AccountPublicAddress
  transferred : UInt64 := 0
  txKey : SecretKey
  lockedContributions : List Contribution := []

/-- One output of the scan in `tx_get_staking_components_and_amounts`: the stake
so far and the key image proofs that are not used up. -/
def decodeStakeOutput (derivation : KeyDerivation) (stake : StakingComponents)
    (proofs : List KeyImageProof) (index : ℕ) :
    Option PublicKey → StakingComponents × List KeyImageProof
  | none => (stake, proofs)
  | some outputKey =>
    let transferred := crypto.getStakingOutputContribution tx index derivation
    if transferred = 0 then (stake, proofs)
    else if crypto.derivePublicKey derivation index stake.address.spendPublicKey ≠ some outputKey
    then (stake, proofs)
    else
      match proofs.find? (fun p => crypto.checkKeyImageSignature p.keyImage outputKey p.signature)
      with
      | none => (stake, proofs)
      | some proof =>
        ({ stake with
            transferred := stake.transferred + transferred
            lockedContributions := stake.lockedContributions ++
              [{ keyImagePubKey := outputKey, keyImage := proof.keyImage, amount := transferred }] },
          proofs.erase proof)

/-- The scan over all outputs from a position on. -/
def decodeStakeOutputs (crypto : Crypto) (tx : Transaction) (derivation : KeyDerivation) :
    ℕ → List (Option PublicKey) → StakingComponents → List KeyImageProof → StakingComponents
  | _, [], stake, _ => stake
  | index, output :: rest, stake, proofs =>
    let decoded := decodeStakeOutput crypto tx derivation stake proofs index output
    decodeStakeOutputs crypto tx derivation (index + 1) rest decoded.1 decoded.2

/-- The amount locked long enough, before infinite staking. -/
def lockedAmount (derivation : KeyDerivation) (blockHeight : ℕ) : UInt64 :=
  let minHeight := blockHeight + stakingNumLockBlocks nettype
  ((tx.outputUnlockTimes.zipIdx.filter
    (fun (unlock, _) => unlock.toNat < 500000000 ∧ minHeight ≤ unlock.toNat)).map
    (fun (_, i) => crypto.getStakingOutputContribution tx i derivation)).sum

/-- `tx_get_staking_components_and_amounts`, with `none` for `false`. -/
def txGetStakingComponentsAndAmounts (blockHeight : ℕ) : Option StakingComponents := do
  let serviceNodePubkey ← tx.serviceNodePubkey
  let address ← tx.serviceNodeContributor
  let txKey ← tx.txSecretKey
  let derivation ← crypto.generateKeyDerivation address.viewPublicKey txKey
  let stake : StakingComponents := { serviceNodePubkey, address, txKey }
  if hfVersion ≥ Hf.hf11InfiniteStaking then
    let proofs ← tx.keyImageProofs
    some (decodeStakeOutputs crypto tx derivation 0 tx.vout stake proofs)
  else
    some { stake with transferred := lockedAmount crypto nettype tx derivation blockHeight }

/-- The checks of `is_registration_tx` on the stake in the transaction itself. -/
def checkRegistrationStake (stakingRequirement : UInt64) (reg : RegistrationDetails)
    (stake : StakingComponents) : Bool :=
  if hfVersion ≥ Hf.hf16Pulse then
    stake.lockedContributions.length = 1 ∧
      (reg.reserved.head?.map Prod.fst) = some stake.address
  else
    stake.transferred ≥ getMinNodeContribution hfVersion stakingRequirement 0 0 ∧
      reg.reserved.length +
        (if stake.address ∈ reg.reserved.map Prod.fst then 0 else 1) ≤ maxContributorsV1

/-- The contributors of a new node: every reserved stake, and nothing paid in. -/
def reservedContributors (stakingRequirement : UInt64) (reg : RegistrationDetails) :
    List Contributor :=
  reg.reserved.map (fun (address, amount) =>
    { address := address
      reserved :=
        if reg.usesPortions then mul128Div64 amount stakingRequirement stakingPortions
        else amount })

/-- The info of a new node. -/
def registrationInfo (blockHeight : ℕ) (index : UInt32) (stakingRequirement : UInt64)
    (reg : RegistrationDetails) : ServiceNodeInfo :=
  let height := UInt64.ofNat blockHeight
  let contributors := reservedContributors stakingRequirement reg
  { recommissionCredit := Int64.ofNat ((getConfig nettype).blocksIn (12 * hour))
    stakingRequirement := stakingRequirement
    operatorAddress := (reg.reserved.head?.map Prod.fst).getD nullAddress
    portionsForOperator :=
      if reg.usesPortions then reg.fee else mul128Div64 reg.fee stakingPortions stakingFeeBasis
    registrationHeight := height
    registrationHfVersion := hfVersion
    lastRewardBlockHeight := height
    lastRewardTransactionIndex := index
    swarmId := unassignedSwarmId
    lastIpChangeHeight := height
    contributors := contributors
    totalReserved := (contributors.map Contributor.reserved).sum }

/-- `is_registration_tx`: the key and the info of the node that a transaction
registers. -/
def isRegistrationTx (blockTimestamp : UInt64) (blockHeight : ℕ) (index : UInt32)
    (stakingRequirement : UInt64) : Option (PublicKey × ServiceNodeInfo) := do
  let reg ← regTxExtractFields tx
  if hfVersion ≥ ethTransition then none
  else if validateRegistration hfVersion nettype stakingRequirement blockTimestamp reg ≠ .ok () then
    none
  else if validateRegistrationSignature crypto reg ≠ .ok () then none
  else
    let stake ← txGetStakingComponentsAndAmounts crypto nettype hfVersion tx blockHeight
    let info := registrationInfo nettype hfVersion blockHeight index stakingRequirement reg
    if ¬ checkRegistrationStake hfVersion stakingRequirement reg stake then none
    else if ¬ (reg.reserved.map Prod.fst).Nodup then none
    else if hfVersion ≥ Hf.hf16Pulse ∧
        stake.transferred < (info.contributors.head?.map Contributor.reserved).getD 0 then none
    else some (reg.serviceNodePubkey, info)

/-- Whether a registration is entered, and with which info: an already registered
node is ignored, except in its grace period before infinite staking. -/
def admitRegistration (blockHeight : ℕ) (old : Option ServiceNodeInfo) (info : ServiceNodeInfo) :
    Option ServiceNodeInfo :=
  match old with
  | none => some info
  | some oldInfo =>
    if hfVersion ≥ Hf.hf11InfiniteStaking then none
    else if hfVersion ≥ Hf.hf10Bulletproofs then
      if blockHeight < oldInfo.registrationHeight.toNat + stakingNumLockBlocks nettype then none
      else some { info with
        lastRewardBlockHeight := oldInfo.lastRewardBlockHeight
        lastRewardTransactionIndex := oldInfo.lastRewardTransactionIndex }
    else none

/-- Enters a new node. From infinite staking on its proof is wiped, in memory and
in the database. -/
def enterNode {σ : Type} (chain : Chain σ) (hfVersion : Hf) (key : PublicKey)
    (info : ServiceNodeInfo) : UpdateM Unit := do
  if hfVersion ≥ Hf.hf11InfiniteStaking then resetProof chain key else pure ()
  insertInfo chain key info

/-- `state_t::process_registration_tx`. -/
def processRegistrationTx {σ : Type} (chain : Chain σ) (block : Block) (tx : Transaction)
    (index : UInt32) : UpdateM Bool := do
  let w ← get
  match isRegistrationTx chain.crypto chain.net.nettype block.majorVersion tx block.timestamp
      block.height index (w.state.getStakingRequirement chain.net) with
  | none => pure false
  | some (key, info) =>
    match admitRegistration chain.net.nettype block.majorVersion block.height
        (w.state.serviceNodesInfos.get? key) info with
    | none => pure false
    | some info => do
      enterNode chain block.majorVersion key info
      pure true

end Xeqm.ServiceNodes
