import Xeqm.Crypto.Types
import Xeqm.Cryptonote.HardFork

/-!
# Network parameters

The entries of `network_config` that the service node list and the rewards
database read. Durations are in seconds. An entry that a network's table leaves
out is zero, as in the aggregate initialisation of the source.
-/

namespace Xeqm.Cryptonote

/-- `network_config`. -/
structure NetworkConfig where
  targetBlockTime : ℕ
  pulseStageTimeout : ℕ := 10
  pulseRoundTimeout : ℕ := 30
  pulseMaxStartAdjustment : ℕ := 15
  pulseMinerFallbackRounds : ℕ := 0
  fallbackMinerPubkeys : List PublicKey := []
  pulseMinServiceNodes : ℕ := 12
  batchingInterval : ℕ := 20
  minBatchPaymentAmount : ℕ := 100000000
  batchingIntervalV2 : ℕ := 20
  minBatchPaymentAmountV2 : ℕ := 100000000
  serviceNodePayableAfterBlocks : ℕ := 4
  deregistrationLockDuration : ℕ
  deregistrationLockDurationV2 : ℕ
  unlockDuration : ℕ
  historyArchiveInterval : ℕ := 10000
  /-- Two years of one-minute blocks. -/
  historyArchiveKeepWindow : ℕ := 1051200
  historyRecentKeepWindow : ℕ := 65
  ethExitBuffer : ℕ
  ethDeregBuffer : ℕ

namespace NetworkConfig

/-- `batching_interval`. -/
def batchingIntervalAt (conf : NetworkConfig) (version : Hf) : ℕ :=
  if version ≥ Hf.hf21WeeklyBatching then conf.batchingIntervalV2 else conf.batchingInterval

/-- `min_batch_payment_amount`. -/
def minBatchPaymentAmountAt (conf : NetworkConfig) (version : Hf) : ℕ :=
  if version ≥ Hf.hf21WeeklyBatching then conf.minBatchPaymentAmountV2
  else conf.minBatchPaymentAmount

end NetworkConfig

/-- One hour in seconds. -/
def hour : ℕ := 3600

/-- `get_config`. The undefined network type has no table; the source throws. -/
def getConfig : NetworkType → NetworkConfig
  | .mainnet =>
    { targetBlockTime := 60, pulseMinerFallbackRounds := 2
      fallbackMinerPubkeys :=
        [0x69c287255899a3633906b4c3e358f42748c0894987672a28730e9bb7b31b27c9,
          0xbdffb531a652ce95e7ba62c4589d7f7138cbbfe10927cc1f2708c7ea4603aab1,
          0xe1a49dc9488e43e4099028e8c7209b062cbdf1f48ff6467ad4dd6ba71c6ab46b]
      batchingIntervalV2 := 10080, minBatchPaymentAmountV2 := 1000000000
      deregistrationLockDuration := 7 * 24 * hour
      deregistrationLockDurationV2 := 14 * 24 * hour, unlockDuration := 14 * 24 * hour
      ethExitBuffer := 60, ethDeregBuffer := 60 }
  | .testnet =>
    { targetBlockTime := 60, pulseMinerFallbackRounds := 2
      fallbackMinerPubkeys :=
        [0xfc3f4e927eb61bc9e2edcff069936a96bdb893f74f7c9ec80f8fc52983e349f5]
      batchingIntervalV2 := 10080, minBatchPaymentAmountV2 := 1000000000
      deregistrationLockDuration := 48 * hour
      deregistrationLockDurationV2 := 24 * hour, unlockDuration := 24 * hour
      ethExitBuffer := 60, ethDeregBuffer := 0 }
  | .devnet =>
    { targetBlockTime := 30, pulseMaxStartAdjustment := 10
      deregistrationLockDuration := 48 * hour
      deregistrationLockDurationV2 := 24 * hour, unlockDuration := 24 * hour
      ethExitBuffer := 60, ethDeregBuffer := 0 }
  | .stagenet =>
    { targetBlockTime := 60, deregistrationLockDuration := 48 * hour
      deregistrationLockDurationV2 := 24 * hour, unlockDuration := 24 * hour
      ethExitBuffer := 120, ethDeregBuffer := 120 }
  | .localdev =>
    { targetBlockTime := 5, pulseStageTimeout := 3, pulseRoundTimeout := 4
      pulseMaxStartAdjustment := 4
      serviceNodePayableAfterBlocks := 1
      deregistrationLockDuration := 50, deregistrationLockDurationV2 := 50, unlockDuration := 0
      ethExitBuffer := 1, ethDeregBuffer := 1 }
  | .fakechain | .undefined =>
    { targetBlockTime := 60, deregistrationLockDuration := hour
      deregistrationLockDurationV2 := hour, unlockDuration := hour / 2
      ethExitBuffer := 60, ethDeregBuffer := 0 }

/-- `BLOCKS_IN`: the number of blocks in a duration. -/
def NetworkConfig.blocksIn (conf : NetworkConfig) (interval : ℕ) : ℕ :=
  interval / conf.targetBlockTime

end Xeqm.Cryptonote
