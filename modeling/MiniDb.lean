import MiniDb.AccessPaths
import MiniDb.DeltaPayloads
import MiniDb.EvictionOrder
import MiniDb.GateInterleavings
import MiniDb.IntegerLiterals
import MiniDb.LogLevels
import MiniDb.LogReads
import MiniDb.PhysicalGrowth
import MiniDb.ReclaimRedo
import MiniDb.RecordIntegrity
import MiniDb.RotationFailure
import MiniDb.SegmentHistory
import MiniDb.SessionSafety
import MiniDb.TornTail
import MiniDb.TransparentCache
import MiniDb.TreeNodes
import MiniDb.TupleCodec
import MiniDb.WriteAhead
