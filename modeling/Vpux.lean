import Vpux.Async.ConsumerMap
import Vpux.Async.DepsMap
import Vpux.Async.GroupDataFlow
import Vpux.Async.GroupExecuteOps
import Vpux.Async.GroupSchedule
import Vpux.Async.GroupedUses
import Vpux.Async.TransitiveReduction
import Vpux.Barrier.ControlPaths
import Vpux.Barrier.Controll
import Vpux.Barrier.DmaOptimization
import Vpux.Barrier.Info
import Vpux.Barrier.Merge
import Vpux.Barrier.OneWait
import Vpux.Barrier.OneWaitBatches
import Vpux.Barrier.OneWaitCount
import Vpux.Barrier.OneWaitOrder
import Vpux.Barrier.OneWaitRun
import Vpux.Barrier.Optimize
import Vpux.Barrier.Slots
import Vpux.Barrier.SplitVariants
import Vpux.Barrier.Tables
import Vpux.Const.AddressTransform
import Vpux.Const.AsmFormat
import Vpux.Const.AsmRoundTrip
import Vpux.Const.Broadcast
import Vpux.Const.Content
import Vpux.Const.CopyTo
import Vpux.Const.Elements
import Vpux.Const.ExpandDilated
import Vpux.Const.Loops
import Vpux.Const.MemPermute
import Vpux.Const.PadWithZero
import Vpux.Const.ReadBytes
import Vpux.Const.RelocateWeightsTable
import Vpux.Const.Reverse
import Vpux.Const.Sparsify
import Vpux.Const.SparsifyLossless
import Vpux.Const.SparsityMap
import Vpux.Const.SubView
import Vpux.Const.Swizzle
import Vpux.Const.SwizzleBytes
import Vpux.Const.SwizzleConstant
import Vpux.Const.Transformations
import Vpux.Const.TransposeConstant
import Vpux.Const.Types
import Vpux.Core.PackedDims
import Vpux.Core.StrideReqs
import Vpux.Core.Subspaces
import Vpux.Data.Alignment
import Vpux.Data.Blocks
import Vpux.Data.Broadcast
import Vpux.Data.BroadcastTo
import Vpux.Data.Chains
import Vpux.Data.Compaction
import Vpux.Data.Dilation
import Vpux.Data.DimGroups
import Vpux.Data.DimPositions
import Vpux.Data.DisjointIntervalRuns
import Vpux.Data.DisjointIntervalSet
import Vpux.Data.Fibres
import Vpux.Data.Folds
import Vpux.Data.Grid
import Vpux.Data.Grouping
import Vpux.Data.Incidence
import Vpux.Data.Looping
import Vpux.Data.Mirror
import Vpux.Data.Packing
import Vpux.Data.Pieces
import Vpux.Data.Ranks
import Vpux.Data.Resampling
import Vpux.Data.RingBuffer
import Vpux.Data.RowMajor
import Vpux.Data.Runs
import Vpux.Data.SlidingWindow
import Vpux.Data.SortedLists
import Vpux.Data.Spans
import Vpux.Data.Sweep
import Vpux.Data.TaskSet
import Vpux.Data.Tensor
import Vpux.Data.WindowMax
import Vpux.Data.WindowPadding
import Vpux.Distribution.Attr
import Vpux.Distribution.ClusterCount
import Vpux.Distribution.Overlapped
import Vpux.Distribution.Segments
import Vpux.Distribution.SplitOverHeight
import Vpux.Dma.ClusterSpaceToDepth
import Vpux.Dma.DepthToSpace
import Vpux.Dma.Descriptor
import Vpux.Dma.Expand
import Vpux.Dma.PerAxisTile
import Vpux.Dma.PermuteDMA
import Vpux.Dma.PermuteMoves
import Vpux.Dma.PermutePlanes
import Vpux.Dma.PermuteRun
import Vpux.Dma.PermuteUtils
import Vpux.Dma.SpaceToDepth
import Vpux.Dma.SpaceToDepthMoves
import Vpux.Dma.TensorBytes
import Vpux.Dma.Upsampling
import Vpux.Graph.Relations
import Vpux.IE.AsymmetricStrides
import Vpux.IE.AsymmetricStridesExact
import Vpux.IE.AvgPool
import Vpux.IE.DilatedSum
import Vpux.IE.DilatedTaps
import Vpux.IE.ExcludePadAvgPool
import Vpux.IE.FoldAxes
import Vpux.IE.FoldFakeQuantize
import Vpux.IE.FoldTo4D
import Vpux.IE.FoldTo4DExact
import Vpux.IE.LargeKernels
import Vpux.IE.LargeKernelsExact
import Vpux.IE.LargeKernelsSlices
import Vpux.IE.LargePads
import Vpux.IE.LegalizeDilated
import Vpux.IE.LegalizeMemPermute
import Vpux.IE.MaxPool
import Vpux.IE.MergeRuns
import Vpux.IE.Operations
import Vpux.IE.OverlappedMaxPool
import Vpux.IE.ReassociationMap
import Vpux.IE.ShapeCast
import Vpux.Inference.CostChains
import Vpux.Inference.Latency
import Vpux.Inference.Progress
import Vpux.Inference.RunSim
import Vpux.Inference.Simulator
import Vpux.Memory.AlignedBuffers
import Vpux.Memory.ControlEdgeDeps
import Vpux.Memory.ControlEdgeGenerator
import Vpux.Memory.ControlEdgeOrder
import Vpux.Memory.LinearScan
import Vpux.Memory.LinearScanAtomic
import Vpux.Memory.LinearScanExact
import Vpux.Memory.LinearScanLive
import Vpux.Memory.LinearScanPredicts
import Vpux.Memory.LinearScanRun
import Vpux.Memory.Partitioner
import Vpux.Memory.PartitionerRun
import Vpux.Memory.PartitionerSpec
import Vpux.Memory.PartitionerTight
import Vpux.Memory.PartitionerValidated
import Vpux.Memory.StaticAllocation
import Vpux.Memory.StaticAllocationFrees
import Vpux.Memory.StaticAllocationRun
import Vpux.Memory.StaticAllocationSafe
import Vpux.Profiling.BufferScheduler
import Vpux.Profiling.LayerInfo
import Vpux.Profiling.RawDataLayout
import Vpux.Profiling.SlotsAgree
import Vpux.Profiling.SlotsOfClasses
import Vpux.Scheduler.Stalls
import Vpux.Scheduler.Types
import Vpux.Simulator.Accounting
import Vpux.Simulator.Assignment
import Vpux.Simulator.Interleaving
import Vpux.Simulator.ParsedTasks
import Vpux.Simulator.Polling
import Vpux.Simulator.Reuse
import Vpux.Simulator.Simulate
import Vpux.Simulator.Steps
import Vpux.Simulator.Validation
import Vpux.StorageElement.ExtractTile
import Vpux.StorageElement.NestedTile
import Vpux.Tiling.AdaptStrides
import Vpux.Tiling.BackInfer
import Vpux.Tiling.Divide
import Vpux.Tiling.GroupConv
import Vpux.Tiling.HWLayer
import Vpux.Tiling.HWLayerEnds
import Vpux.Tiling.HWLayerSearch
import Vpux.Tiling.HWLayerSettles
import Vpux.Tiling.HWLayerSteps
import Vpux.Tiling.HWLayerStuck
import Vpux.Tiling.Partition
import Vpux.Tiling.Preserve
import Vpux.Tiling.Remaining
import Vpux.Tiling.YuvToRgb
import Vpux.VPU.AffineLayout
import Vpux.VPU.ArchKind
import Vpux.VPU.FakeSparsity
import Vpux.VPU.InstructionList
import Vpux.VPU.SqueezeLayout
import Vpux.VPU.Views
import Vpux.VPUIP.DpuTiler
import Vpux.VPUIP.FuseConstants
import Vpux.VPURT.Task
import Vpux.Graph.Reorder
import Vpux.Simulator.Traces
