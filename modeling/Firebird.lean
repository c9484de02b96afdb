import Firebird.Common.Fault
import Firebird.Common.DecFloat.IndexKey
import Firebird.Library.DepthFirst
import Firebird.Library.RunLength
import Firebird.Library.Overwrite
import Firebird.Jrd.Sqz
import Firebird.Jrd.SqzDiff
import Firebird.Jrd.SqzBounds
import Firebird.Jrd.Tra.Inventory
import Firebird.Jrd.Tra.Snapshot
import Firebird.Jrd.Tra.ConsistentRun
import Firebird.Jrd.Tra.ActiveRun
import Firebird.Jrd.Tra.ThresholdRun
import Firebird.Jrd.Tra.SweepRun
import Firebird.Jrd.Dpm.SweptFlagRun
import Firebird.Jrd.Dpm.LineRun
import Firebird.Jrd.Dpm.RecordRoundTrip
import Firebird.Jrd.Dpm.RelationScanRun
import Firebird.Jrd.Tra.SavepointRun
import Firebird.Jrd.Vio.Undisturbed
import Firebird.Jrd.Vio.BackVersionRun
import Firebird.Jrd.Btr.CompoundKey
import Firebird.Jrd.Btr.CompoundOrder
import Firebird.Jrd.Btr.Node
import Firebird.Jrd.Btr.NodeRoundTrip
import Firebird.Jrd.Btr.Search
import Firebird.Jrd.Btr.SearchOrder
import Firebird.Jrd.Btr.IndexRootRun
import Firebird.Jrd.Btr.JumpSearch
import Firebird.Jrd.Btr.JumpArea
import Firebird.Jrd.Btr.JumpRefinement
import Firebird.Jrd.Sorting.Order
import Firebird.Jrd.Nbak.AllocRun
import Firebird.Jrd.Recsrc.HashJoinMatches
import Firebird.Lock.WaitsFor
import Firebird.Lock.SelfRelativeQueueRun
import Firebird.Common.SparseBitmapLocate
import Firebird.Common.TreeAddRecovery
import Firebird.Jrd.Idx.GarbageCollect
import Firebird.Jrd.Btr.Int64KeyOrder
import Firebird.Jrd.Btr.SelectivityCounts
import Firebird.Jrd.Btr.SelectivityKeys
import Firebird.Jrd.Btr.DeleteNodeRun
import Firebird.Jrd.Tra.HeaderCounters
import Firebird.Lock.Downgrade
import Firebird.Lock.Purge
import Firebird.Lock.DataQueue
import Firebird.Lock.ForgottenHead
import Firebird.Jrd.Evl.Evaluators
import Firebird.Common.TimeStamp
import Firebird.Common.Rescale
import Firebird.Common.IntegerToText
import Firebird.Jrd.SimilarTo.SubstringPattern
import Firebird.Common.ClumpletWalk
import Firebird.Common.DecomposeHex
import Firebird.Common.DateTextRoundTrip
import Firebird.Dsql.DateArithmeticExact
import Firebird.Burp.Compress
import Firebird.Jrd.Tra.GetInventory
import Firebird.Dsql.NumberTokenExact
import Firebird.Dsql.DateDifference
import Firebird.Dsql.NumberTokenText
import Firebird.Common.UnicodeUtilSubstring
import Firebird.Jrd.TempSpace.Run
import Firebird.Jrd.Recsrc.RecursiveRun
