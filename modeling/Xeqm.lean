import Xeqm.ServiceNodes.SwarmFixpoint
import Xeqm.ServiceNodes.HistoryRuns
import Xeqm.ServiceNodes.AltBlocks
import Xeqm.ChainDb.OutputLookup
import Xeqm.Pulse.StaleMessages
import Xeqm.Pulse.Signatures
import Xeqm.Pulse.BitsetAgreement
import Xeqm.ServiceNodes.CheckpointVotes
import Xeqm.Blockchain.ForkChoice
import Xeqm.Blockchain.RejectedAltBlocks
import Xeqm.Checkpoints.Culling
import Xeqm.Protocol.BlockQueue
import Xeqm.Ons.UpdateSignatures
import Xeqm.Ons.Owners
import Xeqm.Ons.Pruning
import Xeqm.Pool.Rejection
import Xeqm.Pool.InputCache
import Xeqm.Pool.Lifetime
import Xeqm.ServiceNodes.Obligations
import Xeqm.Coinbase.Agreement
import Xeqm.Coinbase.Template
import Xeqm.Rewards.Refusal
import Xeqm.Rewards.Rounding
import Xeqm.SharedChain.Watchdog
import Xeqm.ServiceNodes.UptimeProofs
import Xeqm.Blockchain.DifficultyCache
import Xeqm.Blink.Metadata
import Xeqm.Crypto.ElectrumWords
import Xeqm.ServiceNodes.StateChangeVotes
import Xeqm.ServiceNodes.PulseSeats
import Xeqm.ServiceNodes.Portions
