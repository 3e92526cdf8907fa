import Gran.Common
import Gran.Bfly.FatBflyDelivery
import Gran.Bfly.FatBflyOrder
import Gran.Bfly.FatBflyDraining
import Gran.Bfly.FatBflyAge
import Gran.Cpu.Timing
import Gran.Cpu.ControlFlow
import Gran.Cpu.WordArithmetic
import Gran.Cpu.Loads
import Gran.Cpu.Program
import Gran.Mem.Ram
import Gran.Component
import Gran.Replies
import Gran.Routers
import Gran.Simt.Coherence
import Gran.Simt.Coalescing
import Gran.Simt.RoundRobin
import Gran.Simt.Lanes
import Gran.Mesh.Order3d
import Gran.Mesh.Starvation3d
import Gran.Mesh.Delivery2d
import Gran.Mesh.Starvation2d
import Gran.Bus.Deadlock
import Gran.Bus.Decoding
import Gran.Mesh.Chain1dDeadlock
import Gran.Mesh.Age1d
import Gran.Mesh.Arbitration
import Gran.Clock.Status
import Gran.Noc.Latency
import Gran.Mem.AllocRegions
import Gran.Mem.Bounds
import Gran.Mem.TrafficGen
import Gran.Codec
import Gran.Uart.Console
