import EosioChain.OrderStatistic
import EosioChain.Transition
import EosioChain.Worklist
import EosioChain.KeyedTable
import EosioChain.Name
import EosioChain.Merkle
import EosioChain.BlockHeaderState
import EosioChain.DposInvariant
import EosioChain.Irreversibility
import EosioChain.BlockNumberWrap
import EosioChain.ForkDatabase
import EosioChain.ForkInvariant
import EosioChain.ForkBranches
import EosioChain.ResourceLimits
import EosioChain.LimitTotals
import EosioChain.ThresholdScan
import EosioChain.Authority
import EosioChain.AuthorityChecker
import EosioChain.AuthoritySemantics
import EosioChain.CheckerSoundness
import EosioChain.ParentForest
import EosioChain.Permissions
import EosioChain.PermissionForest
import EosioChain.AbiSerializer
import EosioChain.AbiBuiltIns
import EosioChain.AbiRoundTrip
import EosioChain.MerkleLevels
import EosioChain.BinaryCarry
import EosioChain.IncrementalMerkleRoot
import EosioChain.SortedMap
import EosioChain.ByteKeys
import EosioChain.Revisions
import EosioChain.ChainKvUndo
import EosioChain.ChainKvBatches
import EosioChain.ChainKvUndoLog
import EosioChain.ChainKvWriteChanges
import EosioChain.ChainKvUndoRefinement
import EosioChain.StateExcept
import EosioChain.UnappliedTransactionQueue
import EosioChain.QueueCounters
import EosioChain.ListLex
import EosioChain.MixedRadix
import EosioChain.NameCodec
import EosioChain.SharedBytes
import EosioChain.HostWords
import EosioChain.Leb128
import EosioChain.DbKeyValueFormat
import EosioChain.BlockLog
import EosioChain.DecimalText
import EosioChain.Asset
import EosioChain.RoundRobin
import EosioChain.ProducerPlugin
import EosioChain.UsageAccumulator
import EosioChain.ThreadedStack
import EosioChain.ProtocolFeatureManager
import EosioChain.RefCounts
import EosioChain.SetCode
import EosioChain.CodeRefCounts
import EosioChain.DecayAccumulator
import EosioChain.ChainConfig
import EosioChain.SubjectiveBilling
import EosioChain.SubjectiveLedger
import EosioChain.BlockLimits
import EosioChain.VirtualLimits
import EosioChain.AccountBandwidth
