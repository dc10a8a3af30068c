import Kata.Lib.RoundTrip
import Kata.Oci.Message
import Kata.Oci.Spec

/-!
# Kata.Oci.Trans

The conversions between the OCI specification and its messages (`libs/protocols/src/trans.rs`). The
`From` of a message type is `Protocols.T.from`, the `From` of a specification type `Oci.T.from`. A
loop that converts and pushes every element of a vector is `List.map`, an optional message is
`Option.map`.

An optional scalar is written as zero when it is absent, and each field has its own test for reading
it back: positive for most of them, nonzero for `oomScoreAdj`, none at all for the fields of a
device.
-/

namespace Kata

open Lib

/-! ## From the specification to the message -/

namespace Protocols

def Box.from (o : Oci.Box) : Box where
  height := o.height
  width := o.width

def User.from (o : Oci.User) : User where
  uid := o.uid
  gid := o.gid
  additionalGids := o.additionalGids
  username := o.username

def LinuxCapabilities.from (o : Oci.LinuxCapabilities) : LinuxCapabilities where
  bounding := o.bounding
  effective := o.effective
  inheritable := o.inheritable
  permitted := o.permitted
  ambient := o.ambient

def PosixRlimit.from (o : Oci.PosixRlimit) : PosixRlimit where
  type := o.type
  hard := o.hard
  soft := o.soft

def Process.from (o : Oci.Process) : Process where
  terminal := o.terminal
  consoleSize := o.consoleSize.map Box.from
  user := some (User.from o.user)
  args := o.args
  env := o.env
  cwd := o.cwd
  capabilities := o.capabilities.map LinuxCapabilities.from
  rlimits := o.rlimits.map PosixRlimit.from
  noNewPrivileges := o.noNewPrivileges
  apparmorProfile := o.apparmorProfile
  oomScoreAdj := o.oomScoreAdj.elim 0 Int32.toInt64
  selinuxLabel := o.selinuxLabel

def LinuxDeviceCgroup.from (o : Oci.LinuxDeviceCgroup) : LinuxDeviceCgroup where
  allow := o.allow
  type := o.type
  major := o.major.elim 0 id
  minor := o.minor.elim 0 id
  access := o.access

def LinuxMemory.from (o : Oci.LinuxMemory) : LinuxMemory where
  limit := o.limit.elim 0 id
  reservation := o.reservation.elim 0 id
  swap := o.swap.elim 0 id
  kernel := o.kernel.elim 0 id
  kernelTcp := o.kernelTcp.elim 0 id
  swappiness := o.swappiness.elim 0 id
  disableOomKiller := o.disableOomKiller.elim false id

def LinuxCpu.from (o : Oci.LinuxCpu) : LinuxCpu where
  shares := o.shares.elim 0 id
  quota := o.quota.elim 0 id
  period := o.period.elim 0 id
  realtimeRuntime := o.realtimeRuntime.elim 0 id
  realtimePeriod := o.realtimePeriod.elim 0 id
  cpus := o.cpus
  mems := o.mems

def LinuxPids.from (o : Oci.LinuxPids) : LinuxPids where
  limit := o.limit

-- "TODO : check" in the source: the numbers of the device are not passed on.
def LinuxWeightDevice.from (o : Oci.LinuxWeightDevice) : LinuxWeightDevice where
  major := 0
  minor := 0
  weight := o.weight.elim 0 UInt16.toUInt32
  leafWeight := o.leafWeight.elim 0 UInt16.toUInt32

def LinuxThrottleDevice.from (o : Oci.LinuxThrottleDevice) : LinuxThrottleDevice where
  major := 0
  minor := 0
  rate := o.rate

def LinuxBlockIo.from (o : Oci.LinuxBlockIo) : LinuxBlockIo where
  weight := o.weight.elim 0 UInt16.toUInt32
  leafWeight := o.leafWeight.elim 0 UInt16.toUInt32
  weightDevice := o.weightDevice.map LinuxWeightDevice.from
  throttleReadBpsDevice := o.throttleReadBpsDevice.map LinuxThrottleDevice.from
  throttleWriteBpsDevice := o.throttleWriteBpsDevice.map LinuxThrottleDevice.from
  throttleReadIopsDevice := o.throttleReadIopsDevice.map LinuxThrottleDevice.from
  throttleWriteIopsDevice := o.throttleWriteIopsDevice.map LinuxThrottleDevice.from

def LinuxHugepageLimit.from (o : Oci.LinuxHugepageLimit) : LinuxHugepageLimit where
  pagesize := o.pageSize
  limit := o.limit

def LinuxInterfacePriority.from (o : Oci.LinuxInterfacePriority) : LinuxInterfacePriority where
  name := o.name
  priority := o.priority

def LinuxNetwork.from (o : Oci.LinuxNetwork) : LinuxNetwork where
  classId := o.classId.elim 0 id
  priorities := o.priorities.map LinuxInterfacePriority.from

def LinuxResources.from (o : Oci.LinuxResources) : LinuxResources where
  devices := o.devices.map LinuxDeviceCgroup.from
  memory := o.memory.map LinuxMemory.from
  cpu := o.cpu.map LinuxCpu.from
  pids := o.pids.map LinuxPids.from
  blockIo := o.blockIo.map LinuxBlockIo.from
  hugepageLimits := o.hugepageLimits.map LinuxHugepageLimit.from
  network := o.network.map LinuxNetwork.from

def Root.from (o : Oci.Root) : Root where
  path := o.path
  readonly := o.readonly

def Mount.from (o : Oci.Mount) : Mount where
  destination := o.destination
  source := o.source
  type := o.type
  options := o.options

def Hook.from (o : Oci.Hook) : Hook where
  path := o.path
  args := o.args
  env := o.env
  timeout := o.timeout.elim 0 Int32.toInt64

def Hooks.from (o : Oci.Hooks) : Hooks where
  prestart := o.prestart.map Hook.from
  createRuntime := o.createRuntime.map Hook.from
  createContainer := o.createContainer.map Hook.from
  startContainer := o.startContainer.map Hook.from
  poststart := o.poststart.map Hook.from
  poststop := o.poststop.map Hook.from

def LinuxIdMapping.from (o : Oci.LinuxIdMapping) : LinuxIdMapping where
  hostId := o.hostId
  containerId := o.containerId
  size := o.size

def LinuxNamespace.from (o : Oci.LinuxNamespace) : LinuxNamespace where
  type := o.type
  path := o.path

def LinuxDevice.from (o : Oci.LinuxDevice) : LinuxDevice where
  path := o.path
  type := o.type
  major := o.major
  minor := o.minor
  fileMode := o.fileMode.elim 0 id
  uid := o.uid.elim 0 id
  gid := o.gid.elim 0 id

def LinuxSeccompArg.from (o : Oci.LinuxSeccompArg) : LinuxSeccompArg where
  index := o.index.toUInt64
  value := o.value
  valueTwo := o.valueTwo
  op := o.op

def LinuxSyscall.from (o : Oci.LinuxSyscall) : LinuxSyscall where
  names := o.names
  action := o.action
  args := o.args.map LinuxSeccompArg.from
  errnoRet := some o.errnoRet

def LinuxSeccomp.from (o : Oci.LinuxSeccomp) : LinuxSeccomp where
  defaultAction := o.defaultAction
  architectures := o.architectures
  syscalls := o.syscalls.map LinuxSyscall.from
  flags := o.flags

def LinuxIntelRdt.from (o : Oci.LinuxIntelRdt) : LinuxIntelRdt where
  l3CacheSchema := o.l3CacheSchema

def Linux.from (o : Oci.Linux) : Linux where
  uidMappings := o.uidMappings.map LinuxIdMapping.from
  gidMappings := o.gidMappings.map LinuxIdMapping.from
  sysctl := o.sysctl
  resources := o.resources.map LinuxResources.from
  cgroupsPath := o.cgroupsPath
  namespaces := o.namespaces.map LinuxNamespace.from
  devices := o.devices.map LinuxDevice.from
  seccomp := o.seccomp.map LinuxSeccomp.from
  rootfsPropagation := o.rootfsPropagation
  maskedPaths := o.maskedPaths
  readonlyPaths := o.readonlyPaths
  mountLabel := o.mountLabel
  intelRdt := o.intelRdt.map LinuxIntelRdt.from

def Spec.from (o : Oci.Spec) : Spec where
  version := o.version
  process := o.process.map Process.from
  root := o.root.map Root.from
  hostname := o.hostname
  mounts := o.mounts.map Mount.from
  hooks := o.hooks.map Hooks.from
  annotations := o.annotations
  linux := o.linux.map Linux.from

end Protocols

/-! ## From the message to the specification -/

namespace Oci

def Root.from (m : Protocols.Root) : Root where
  path := m.path
  readonly := m.readonly

def Mount.from (m : Protocols.Mount) : Mount where
  type := m.type
  destination := m.destination
  source := m.source
  options := m.options

def LinuxIdMapping.from (m : Protocols.LinuxIdMapping) : LinuxIdMapping where
  containerId := m.containerId
  hostId := m.hostId
  size := m.size

def LinuxDeviceCgroup.from (m : Protocols.LinuxDeviceCgroup) : LinuxDeviceCgroup where
  allow := m.allow
  type := m.type
  major := optional (0 < ·) id m.major
  minor := optional (0 < ·) id m.minor
  access := m.access

def LinuxMemory.from (m : Protocols.LinuxMemory) : LinuxMemory where
  limit := optional (0 < ·) id m.limit
  reservation := optional (0 < ·) id m.reservation
  swap := optional (0 < ·) id m.swap
  kernel := optional (0 < ·) id m.kernel
  kernelTcp := optional (0 < ·) id m.kernelTcp
  swappiness := optional (0 < ·) id m.swappiness
  disableOomKiller := some m.disableOomKiller

def LinuxCpu.from (m : Protocols.LinuxCpu) : LinuxCpu where
  shares := optional (0 < ·) id m.shares
  quota := optional (0 < ·) id m.quota
  period := optional (0 < ·) id m.period
  realtimeRuntime := optional (0 < ·) id m.realtimeRuntime
  realtimePeriod := optional (0 < ·) id m.realtimePeriod
  cpus := m.cpus
  mems := m.mems

def LinuxPids.from (m : Protocols.LinuxPids) : LinuxPids where
  limit := m.limit

def LinuxThrottleDevice.from (m : Protocols.LinuxThrottleDevice) : LinuxThrottleDevice where
  blk := { major := m.major, minor := m.minor }
  rate := m.rate

def LinuxWeightDevice.from (m : Protocols.LinuxWeightDevice) : LinuxWeightDevice where
  blk := { major := m.major, minor := m.minor }
  weight := some m.weight.toUInt16
  leafWeight := some m.leafWeight.toUInt16

def LinuxBlockIo.from (m : Protocols.LinuxBlockIo) : LinuxBlockIo where
  weight := optional (0 < ·) UInt32.toUInt16 m.weight
  leafWeight := optional (0 < ·) UInt32.toUInt16 m.leafWeight
  weightDevice := m.weightDevice.map LinuxWeightDevice.from
  throttleReadBpsDevice := m.throttleReadBpsDevice.map LinuxThrottleDevice.from
  throttleWriteBpsDevice := m.throttleWriteBpsDevice.map LinuxThrottleDevice.from
  throttleReadIopsDevice := m.throttleReadIopsDevice.map LinuxThrottleDevice.from
  throttleWriteIopsDevice := m.throttleWriteIopsDevice.map LinuxThrottleDevice.from

def LinuxInterfacePriority.from (m : Protocols.LinuxInterfacePriority) : LinuxInterfacePriority where
  name := m.name
  priority := m.priority

def LinuxNetwork.from (m : Protocols.LinuxNetwork) : LinuxNetwork where
  classId := optional (0 < ·) id m.classId
  priorities := m.priorities.map LinuxInterfacePriority.from

def LinuxHugepageLimit.from (m : Protocols.LinuxHugepageLimit) : LinuxHugepageLimit where
  pageSize := m.pagesize
  limit := m.limit

def LinuxResources.from (m : Protocols.LinuxResources) : LinuxResources where
  devices := m.devices.map LinuxDeviceCgroup.from
  memory := m.memory.map LinuxMemory.from
  cpu := m.cpu.map LinuxCpu.from
  pids := m.pids.map LinuxPids.from
  blockIo := m.blockIo.map LinuxBlockIo.from
  hugepageLimits := m.hugepageLimits.map LinuxHugepageLimit.from
  network := m.network.map LinuxNetwork.from
  rdma := ∅

def LinuxDevice.from (m : Protocols.LinuxDevice) : LinuxDevice where
  path := m.path
  type := m.type
  major := m.major
  minor := m.minor
  fileMode := some m.fileMode
  uid := some m.uid
  gid := some m.gid

def LinuxSeccompArg.from (m : Protocols.LinuxSeccompArg) : LinuxSeccompArg where
  index := m.index.toUInt32
  value := m.value
  valueTwo := m.valueTwo
  op := m.op

def LinuxSyscall.from (m : Protocols.LinuxSyscall) : LinuxSyscall where
  names := m.names
  action := m.action
  args := m.args.map LinuxSeccompArg.from
  errnoRet := m.errnoRet.getD 0

def LinuxSeccomp.from (m : Protocols.LinuxSeccomp) : LinuxSeccomp where
  defaultAction := m.defaultAction
  architectures := m.architectures
  syscalls := m.syscalls.map LinuxSyscall.from
  flags := m.flags

def LinuxNamespace.from (m : Protocols.LinuxNamespace) : LinuxNamespace where
  type := m.type
  path := m.path

def Linux.from (m : Protocols.Linux) : Linux where
  uidMappings := m.uidMappings.map LinuxIdMapping.from
  gidMappings := m.gidMappings.map LinuxIdMapping.from
  sysctl := m.sysctl
  resources := m.resources.map LinuxResources.from
  cgroupsPath := m.cgroupsPath
  namespaces := m.namespaces.map LinuxNamespace.from
  devices := m.devices.map LinuxDevice.from
  seccomp := m.seccomp.map LinuxSeccomp.from
  rootfsPropagation := m.rootfsPropagation
  maskedPaths := m.maskedPaths
  readonlyPaths := m.readonlyPaths
  mountLabel := m.mountLabel
  intelRdt := none

def PosixRlimit.from (m : Protocols.PosixRlimit) : PosixRlimit where
  type := m.type
  hard := m.hard
  soft := m.soft

def LinuxCapabilities.from (m : Protocols.LinuxCapabilities) : LinuxCapabilities where
  bounding := m.bounding
  effective := m.effective
  inheritable := m.inheritable
  permitted := m.permitted
  ambient := m.ambient

def User.from (m : Protocols.User) : User where
  uid := m.uid
  gid := m.gid
  additionalGids := m.additionalGids
  username := m.username

def Box.from (m : Protocols.Box) : Box where
  height := m.height
  width := m.width

def Process.from (m : Protocols.Process) : Process where
  terminal := m.terminal
  consoleSize := m.consoleSize.map Box.from
  user := User.from (m.user.getD {})
  args := m.args
  env := m.env
  cwd := m.cwd
  capabilities := m.capabilities.map LinuxCapabilities.from
  rlimits := m.rlimits.map PosixRlimit.from
  noNewPrivileges := m.noNewPrivileges
  apparmorProfile := m.apparmorProfile
  oomScoreAdj := optional (· ≠ 0) Int64.toInt32 m.oomScoreAdj
  selinuxLabel := m.selinuxLabel

def Hook.from (m : Protocols.Hook) : Hook where
  path := m.path
  args := m.args
  env := m.env
  timeout := optional (0 < ·) Int64.toInt32 m.timeout

def Hooks.from (m : Protocols.Hooks) : Hooks where
  prestart := m.prestart.map Hook.from
  createRuntime := m.createRuntime.map Hook.from
  createContainer := m.createContainer.map Hook.from
  startContainer := m.startContainer.map Hook.from
  poststart := m.poststart.map Hook.from
  poststop := m.poststop.map Hook.from

def Spec.from (m : Protocols.Spec) : Spec where
  version := m.version
  process := m.process.map Process.from
  root := m.root.map Root.from
  hostname := m.hostname
  mounts := m.mounts.map Mount.from
  hooks := m.hooks.map Hooks.from
  annotations := m.annotations
  linux := m.linux.map Linux.from

end Oci
end Kata
