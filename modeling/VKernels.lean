import VKernels.Comm.CaptureState
import VKernels.Comm.FabricDonations
import VKernels.Comm.CrossNodeRounds
import VKernels.Comm.Overlap
import VKernels.Compiler.ScheduledExecution
import VKernels.Compiler.CompressorAppendRuns
import VKernels.Tuning.Seeding
import VKernels.Tuning.Selectors
import VKernels.Dsa.ResolveRowsBatched
import VKernels.Dsa.KpoolRings
import VKernels.Compiler.MegakernelAddressing
import VKernels.Comm.GatherFallback
import VKernels.Core.TuneRecords
import VKernels.Tuning.NativeStoreRuns
import VKernels.Moe.TensorParallelExact
import VKernels.Dsa.HotTier
import VKernels.Speculative.Dflash
import VKernels.Kda.StandardForward
import VKernels.Moe.DistMoeExact
import VKernels.Moe.AlignCapacity
import VKernels.Moe.GroupedDecodeLadder
import VKernels.Moe.GroupedLoop
import VKernels.Moe.FusedRouter
import VKernels.Tuning.TuningCache
import VKernels.Attention.LongDecodeExact
import VKernels.Attention.MlaForward
import VKernels.Comm.CudaGather
import VKernels.Compiler.HyperConnectionsExact
import VKernels.Compiler.MoeDecodeExact
import VKernels.Attention.IndexedMlaGradient
import VKernels.Attention.PagedDecodeExact
import VKernels.Compiler.RecurrentDeviceExact
import VKernels.Comm.StripeBounds
import VKernels.Comm.StridedGather
import VKernels.Comm.SlotWidth
import VKernels.Compiler.TaskNumbering
import VKernels.Compiler.FlatTiles
import VKernels.Compiler.IndexTopkDevice
import VKernels.Compiler.GroupRoute
import VKernels.Compiler.CanaryRuns
import VKernels.Compiler.HybridCorrect
import VKernels.Comm.CrossNodeRing
import VKernels.Dsa.KpoolSlots
import VKernels.Moe.MxFp4Sorted
import VKernels.Dsa.KpoolEncoders
import VKernels.Dsa.TopkLogits
import VKernels.Dsa.TopkTransform
import VKernels.Kda.BlockedGrams
import VKernels.Dsa.ResolveRowsBounds
import VKernels.Kda.PrefixState
import VKernels.Kda.ChunkReference
import VKernels.Moe.GroupedTileMap
import VKernels.Moe.DecodeFp8Gemm
import VKernels.Tuning.FirstCall
