import EloqKV.Checksum
import EloqKV.Connection.ScanCursors
import EloqKV.Namespace.Collection
import EloqKV.Namespace.KeyImage
import EloqKV.Namespace.LookupRace
import EloqKV.Namespace.Sessions
import EloqKV.Objects.Emptiness
import EloqKV.Objects.Expire
import EloqKV.Objects.Lengths
import EloqKV.Objects.ListAnswers
import EloqKV.Objects.Overwrite
import EloqKV.Objects.PopCounts
import EloqKV.Objects.RandMembers
import EloqKV.Objects.Results
import EloqKV.Objects.StoreCommands
import EloqKV.Rdb.Export
import EloqKV.Rdb.RestoreSafety
import EloqKV.Objects.Deadlines
import EloqKV.Strings.BitOp
import EloqKV.Strings.EditCommands
import EloqKV.Strings.Counters
import EloqKV.Transactions.BlockingRuns
import EloqKV.Transactions.FlushedQueue
import EloqKV.Transactions.Lifecycle
import EloqKV.Transactions.MultiQueue
import EloqKV.Vector.ShardedLog
import EloqKV.Vector.RecordMetadata
import EloqKV.Zset.Replay
import EloqKV.Transactions.MoveCommands
