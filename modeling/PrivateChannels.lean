import PrivateChannels.Core.BlockhashQueries
import PrivateChannels.Core.Conservation
import PrivateChannels.Core.DagSerial
import PrivateChannels.Core.Generations
import PrivateChannels.Core.Ingress
import PrivateChannels.Core.ParallelExecution
import PrivateChannels.Core.PipelineDeadline
import PrivateChannels.Core.ResultChunks
import PrivateChannels.Core.SettlementDivergence
import PrivateChannels.Core.WindowRetirement
import PrivateChannels.Core.WriteBatchRuns
import PrivateChannels.Decoder.OnChainAgreement
import PrivateChannels.Gateway.HistoryScopeSound
import PrivateChannels.Indexer.FenceRuns
import PrivateChannels.Indexer.MintConvergence
import PrivateChannels.Indexer.StreamCoverage
import PrivateChannels.Indexer.SupplyInvariant
import PrivateChannels.Operator.BootBitmapSound
import PrivateChannels.Operator.HealthyTick
import PrivateChannels.Operator.LiabilityIdentity
import PrivateChannels.Operator.ReconciliationPasses
import PrivateChannels.Operator.RefundQueueSafety
import PrivateChannels.Operator.RestoreSafety
import PrivateChannels.Operator.RotationSafety
import PrivateChannels.Withdraw.WithdrawConfigRuns
