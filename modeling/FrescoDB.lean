import FrescoDB.Lib.BigEndian
import FrescoDB.Lib.Escape
import FrescoDB.Lib.Ieee
import FrescoDB.Lib.Bitfield
import FrescoDB.Docdb.ValueType
import FrescoDB.Docdb.DocKvUtil
import FrescoDB.Docdb.Intent
import FrescoDB.Docdb.PrimitiveValue
import FrescoDB.Util.Uuid
import FrescoDB.Util.FastVarint
import FrescoDB.Util.KvUtil
import FrescoDB.Util.InetAddress
import FrescoDB.Common.HybridTime
import FrescoDB.Common.DocHybridTime
import FrescoDB.Server.HybridClock
import FrescoDB.Docdb.PrimitiveValueOrder
import FrescoDB.Docdb.SharedLockManager
import FrescoDB.Docdb.LockInvariant
import FrescoDB.Server.HybridClockMonotone
import FrescoDB.Lib.Ballot
import FrescoDB.Consensus.RaftConsensus
import FrescoDB.Consensus.VoteSafety
import FrescoDB.Lib.IndexWindow
import FrescoDB.Consensus.ReplicaState
import FrescoDB.Consensus.PendingInvariant
import FrescoDB.Lib.LeadingOnes
import FrescoDB.Util.VarInt
import FrescoDB.Lib.MachineInt
import FrescoDB.Lib.SortedList
import FrescoDB.Tablet.Mvcc
import FrescoDB.Tablet.MvccInvariant
import FrescoDB.Common.QLExpr
import FrescoDB.Common.QLScanSpec
import FrescoDB.Common.QLScanSpecSound
import FrescoDB.Lib.LexOrder
import FrescoDB.Docdb.DocQLScanSpec
import FrescoDB.Consensus.RetryableRequests
import FrescoDB.Consensus.RetryableRequestsSpec
import FrescoDB.Lib.IntervalList
import FrescoDB.Consensus.RetryableRequestsRanges
import FrescoDB.Consensus.RetryableRequestsRefinement
import FrescoDB.Consensus.RetryableRequestsRun
import FrescoDB.Docdb.Value
import FrescoDB.Common.QLValuePB
import FrescoDB.Docdb.QLValueKey
import FrescoDB.Util.Status
import FrescoDB.Consensus.LogUtil
import FrescoDB.Consensus.LogGC
import FrescoDB.Consensus.LogGCSpec
import FrescoDB.Consensus.LogUtilSpec
import FrescoDB.Common.Transaction
import FrescoDB.Tablet.RunningTransaction
import FrescoDB.Tablet.RunningTransactionSpec
import FrescoDB.Consensus.LeaderElection
import FrescoDB.Consensus.Deduplicate
import FrescoDB.Util.MonoTime
import FrescoDB.Lib.OrderStatistic
import FrescoDB.Consensus.Watermark
import FrescoDB.Docdb.LockManagerImpl
import FrescoDB.Docdb.LockManagerSpec
import FrescoDB.Docdb.LockManagerRun
import FrescoDB.Lib.Coalesce
import FrescoDB.Docdb.KeysToLock
import FrescoDB.Docdb.KeysToLockSpec
import FrescoDB.Lib.DigitList
import FrescoDB.Util.VarIntText
import FrescoDB.Lib.TwosComplement
import FrescoDB.Util.VarIntTwosComplement
import FrescoDB.Lib.Nibble
import FrescoDB.Util.UuidOrder
import FrescoDB.Lib.SortedCuts
import FrescoDB.Common.Partition
import FrescoDB.Client.Table
import FrescoDB.Gutil.Bits
import FrescoDB.Util.HdrHistogram
import FrescoDB.Util.HdrHistogramLayout
import FrescoDB.Lib.RunningTotal
import FrescoDB.Util.HdrHistogramSpec
import FrescoDB.Docdb.ConflictResolution
import FrescoDB.Docdb.ConflictResolutionSpec
import FrescoDB.Tablet.TransactionParticipant
import FrescoDB.Tablet.TransactionParticipantSpec
import FrescoDB.Tablet.OperationDriver
import FrescoDB.Tablet.OperationDriverSpec
import FrescoDB.Tablet.OperationDriverOrder
import FrescoDB.Rpc.Serialization
import FrescoDB.Rpc.SerializationSpec
import FrescoDB.Rpc.RoundTrip
import FrescoDB.Util.StolUtils
import FrescoDB.Docdb.RedisOperation
import FrescoDB.Redis.RedisParser
import FrescoDB.Redis.StringCommands
import FrescoDB.Lib.Ledger
import FrescoDB.Util.MemTracker
import FrescoDB.Util.MemTrackerSpec
import FrescoDB.Master.Placement
import FrescoDB.Master.PlacementSpec
import FrescoDB.Lib.ByteReader
import FrescoDB.Cql.CqlMessage
import FrescoDB.Cql.CqlGrammar
import FrescoDB.Cql.CqlRoundTrip
import FrescoDB.Lib.Regex
import FrescoDB.Util.DateTime
import FrescoDB.Util.DateTimeSpec
import FrescoDB.Lib.DigitFraction
import FrescoDB.Util.Decimal
import FrescoDB.Util.DecimalValue
import FrescoDB.Util.DecimalComparable
import FrescoDB.Util.DecimalText
import FrescoDB.Docdb.DecimalKey
import FrescoDB.Util.DecimalAdd
import FrescoDB.Util.DecimalSerialized
import FrescoDB.Util.DecimalInteger
import FrescoDB.Docdb.PrimitiveValueDecode
import FrescoDB.Docdb.PrimitiveValueDecodeSpec
