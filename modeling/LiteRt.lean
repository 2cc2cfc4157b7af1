import LiteRt.Model.MutatorRuns
import LiteRt.Plugin.InlineEval
import LiteRt.Plugin.PartitionOrder
import LiteRt.Tflite.Preview
import LiteRt.Tflite.DynamicShapes
import LiteRt.Tflite.Restoration
import LiteRt.Tflite.DelegatedRun
import LiteRt.Tflite.PartitionProgress
import LiteRt.Remat.Metadata
import LiteRt.Gpu.Offsets
import LiteRt.Gpu.SharedRun
import LiteRt.Gpu.Reallocation
import LiteRt.Tflite.IncrementalPlanning
import LiteRt.Tflite.StringVerifier
import LiteRt.WeightCache.ProviderRuns
import LiteRt.Kernels.Fivefold
import LiteRt.Kernels.BroadcastAdd
import LiteRt.MagicNumbers.ReplacedOnce
import LiteRt.Tflite.BytesRequired
import LiteRt.Tflite.BestFit
import LiteRt.Gpu.EqualityOptimal
import LiteRt.Tflite.CheckedPartition
import LiteRt.Remat.Greedy
import LiteRt.Kernels.IntegerDoubleCompare
import LiteRt.Tflite.GraphVerifier
import LiteRt.Profiling.EventLog
import LiteRt.WeightLoader.Slices
import LiteRt.Tflite.ReadOnlyTensor
import LiteRt.Kernels.ResizeNearest
import LiteRt.Shapes.GraphRanks
import LiteRt.Kernels.StridedSliceSafety
import LiteRt.Kernels.Requantize
import LiteRt.Kernels.DensePacking
import LiteRt.Qnn.Rollback
import LiteRt.WeightCache.MissRuns
import LiteRt.WeightCache.FailedLoads
import LiteRt.GpuFusion.PaddingMerged
import LiteRt.Qnn.PatternSearch
import LiteRt.MagicNumbers.Superset
import LiteRt.TensorBuffer.Lock
import LiteRt.Kernels.Transpose
import LiteRt.Interop.Reconcile
import LiteRt.Grafter.Combine
import LiteRt.Jpeg.JfifRoundTrip
import LiteRt.GpuLayout.Phwo4i4
import LiteRt.Kernels.FloorLog2
import LiteRt.GpuGraph.CopyExact
