import NocSwap.Ruby.Correct.BufferCapacity
import NocSwap.Ruby.Correct.BufferAge
import NocSwap.Ruby.Correct.ShortestPath
import NocSwap.Garnet.Correct.IrregularMesh
import NocSwap.Garnet.Correct.MeshTables
import NocSwap.Garnet.Correct.FunctionalWrite
import NocSwap.Garnet.Correct.Rest
import NocSwap.Tester.Correct.SyntheticTraffic
import NocSwap.Protocol.MI.Correct.LoadLinked
import NocSwap.Protocol.MI.Correct.LockedRMW
import NocSwap.Protocol.MI.Correct.Deadlock
import NocSwap.Base.Correct.RangeCache
import NocSwap.Ruby.Correct.CacheMemory
import NocSwap.Garnet.Correct.Candidates
import NocSwap.Garnet.Correct.Validate
import NocSwap.Garnet.Correct.SwapStats
import NocSwap.Garnet.Correct.Hops
import NocSwap.Garnet.Correct.MeshRouting
import NocSwap.Garnet.Correct.SwitchAllocator
import NocSwap.Garnet.Correct.Multicast
import NocSwap.Ruby.Correct.Consumer
import NocSwap.Ruby.Correct.Throttle
import NocSwap.Ruby.Correct.PerfectSwitch
import NocSwap.Tester.Correct.TrafficPattern
import NocSwap.Sim.Correct.DebugVerify
import NocSwap.Ruby.Correct.MemWriteback
import NocSwap.Base.Correct.PacketQueue
import NocSwap.Ruby.Correct.AbstractController
import NocSwap.Ruby.Correct.DMASequencer
import NocSwap.Base.Correct.ChunkGenerator
import NocSwap.Base.Correct.CircleBuf
import NocSwap.Base.Correct.IntMath
import NocSwap.Ruby.Correct.Address
import NocSwap.Ruby.Correct.WireBuffer
