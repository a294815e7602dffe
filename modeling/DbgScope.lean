import DbgScope.Machine
import DbgScope.Run
import DbgScope.Lockstep
import DbgScope.Probing
import DbgScope.PartitionPoint
import DbgScope.LineScan
import DbgScope.Tiling
import DbgScope.Serial
import DbgScope.Bits
import DbgScope.Utf16
import DbgScope.Pool.Basic
import DbgScope.Pool.Decode
import DbgScope.Pool.Tags
import DbgScope.Pool.CachedChunks
import DbgScope.Pool.Holes
import DbgScope.Pool.MatchLimit
import DbgScope.Pool.Layout
import DbgScope.Pool.Memory
import DbgScope.Pool.Traverse
import DbgScope.Pool.BigPages
import DbgScope.Pool.Evidence
import DbgScope.Pool.Region
import DbgScope.Pool.Segments
import DbgScope.Pool.Discover
import DbgScope.Pool.Snapshot
import DbgScope.Pool.Diagnostics
import DbgScope.Pool.Backends
import DbgScope.Pool.WalkVs
import DbgScope.Pool.WalkRegion
import DbgScope.Pool.Walk
import DbgScope.Pool.Observing
import DbgScope.Pool.Moves
import DbgScope.Pool.Recording
import DbgScope.Pool.Rounds
import DbgScope.Pool.Honest
import DbgScope.Pool.Coverage
import DbgScope.Pool.Frozen
import DbgScope.Preorder
import DbgScope.Pool.TreeNodes
import DbgScope.Pool.BigPageDiscipline
import DbgScope.Pool.Extents
import DbgScope.Pool.Accounts
import DbgScope.Pool.Patchy
import DbgScope.Pool.Promptness
import DbgScope.Pool.SpecialPool
import DbgScope.Pool.LfhSlots
import DbgScope.Pool.LfhSubsegments
import DbgScope.Pool.SegmentRegions
import DbgScope.Pool.Gaps
import DbgScope.Pool.LfhReadable
import DbgScope.Pool.VsGaps
import DbgScope.Pool.VsChain
import DbgScope.Pool.VsSubsegments
import DbgScope.StableSort
import DbgScope.Grouping
import DbgScope.Tally
import DbgScope.Pool.Census
import DbgScope.Pool.Filing
import DbgScope.Pool.Index
import DbgScope.Pool.Neighbours
import DbgScope.Engine.Basic
import DbgScope.Engine.Breaks
import DbgScope.Engine.Arrivals
import DbgScope.Engine.Deliveries
import DbgScope.Engine.Departures
import DbgScope.Engine.Accounting
import DbgScope.Engine.ChunkedRead
import DbgScope.Engine.Drain
import DbgScope.Engine.Caches
import DbgScope.Engine.Watchdog
import DbgScope.Engine.Announcement
import DbgScope.Engine.Opens
import DbgScope.Engine.Sessions
import DbgScope.Arm64.Operand
import DbgScope.Arm64.Flow
import DbgScope.Arm64.Immediate
import DbgScope.Arm64.Branches
import DbgScope.Arm64.LoadStore
import DbgScope.Arm64.Register
import DbgScope.Arm64.Decode
import DbgScope.A64
import DbgScope.Arm64.Bitmask
import DbgScope.Arm64.Reports
import DbgScope.Arm64.Effects
import DbgScope.Heap.Roots
import DbgScope.Heap.HeapList
import DbgScope.Heap.Neighbourhood
import DbgScope.Pe.Imports
import DbgScope.Pe.ImportTable
import DbgScope.Pe.Slots
import DbgScope.Pe.Tables
import DbgScope.Pe.Words
import DbgScope.Pe.Bounds
import DbgScope.Pe.Exports
import DbgScope.Pe.Granules
import DbgScope.Pe.HoledImports
import DbgScope.Object.Upcase
import DbgScope.Object.Namespace
import DbgScope.Object.Stopping
import DbgScope.Object.Lookup
import DbgScope.Object.Paths
import DbgScope.Object.Resolution
