import Sqe.Catalog.ExprToPredicateSound
import Sqe.Policy.LeakproofSound
import Sqe.Policy.WritePredicatesSound
import Sqe.Policy.RangerCache
import Sqe.Policy.AccessMonotone
import Sqe.Policy.RangerWildcard
import Sqe.Policy.PolicyKeys
import Sqe.Policy.TagMasksOrder
import Sqe.Policy.RevokeAll
import Sqe.Policy.GrantRollback
import Sqe.Catalog.Hive.ExactFilters
import Sqe.Catalog.SortOrder
import Sqe.Catalog.TxnPublish
import Sqe.Catalog.MetadataCacheSound
import Sqe.Catalog.PhysicalToPredicateSound
import Sqe.Catalog.IncrementalRange
import Sqe.Coordinator.EndTransaction
import Sqe.Coordinator.DistributedScan
import Sqe.Coordinator.AdaptiveSort
import Sqe.Write.RowDelta
import Sqe.Coordinator.CompactionSound
import Sqe.Coordinator.PurgeOrphans
import Sqe.Coordinator.QueryCacheSound
import Sqe.TrinoCompat.Paging
import Sqe.TrinoCompat.TryFunction
import Sqe.Coordinator.TxnAccounts
import Sqe.Coordinator.RateLimiter
import Sqe.Coordinator.DeleteAccounting
import Sqe.Coordinator.MaintenanceLease
import Sqe.Coordinator.MaintenanceSchedule
import Sqe.Write.MergeSemantics
import Sqe.Write.AlterSerial
import Sqe.Quack.RoundTrip
import Sqe.Quack.BackedRows
import Sqe.Quack.ResultPaging
import Sqe.Audit.SpoolTrim
import Sqe.Spill.Scope
