import Kata.Agent.DeviceRules
import Kata.Agent.StorageCount
import Kata.Agent.WatchLimits
import Kata.Agent.WatchSync
import Kata.Allocator.Boundary
import Kata.Block.Request
import Kata.Cgroups.Cpu
import Kata.Cgroups.CpuSet
import Kata.Cgroups.Devices
import Kata.Cgroups.MemoryOrder
import Kata.Config.DropIn
import Kata.Devices.IoDispatch
import Kata.Hypervisor.DeviceIndex
import Kata.Limiter.Replenish
import Kata.Resources.AllOrNothing
import Kata.SafePath.Chroot
import Kata.Sandbox.BlockIndex
import Kata.Sandbox.MemoryHotplug
import Kata.Space.GuestMemory
import Kata.TarIndex.Cycles
import Kata.TarIndex.Frame
import Kata.TarIndex.Resolve
import Kata.Verity.DmTarget
import Kata.Verity.Hostile
import Kata.VirtioMem.BackingRuns
import Kata.VirtioMem.Bounds
import Kata.Vsock.ByteStream
import Kata.Vsock.CreditUpdate
import Kata.Vsock.LocalPorts
import Kata.Vsock.RstQueue
import Kata.Vsock.Shutdown
