import Mathlib.Tactic.Common

/-!
# Kata.Oci.Message

The messages that carry an OCI specification over ttRPC (`libs/protocols/protos/oci.proto`). A
scalar field is always there, with zero standing for an unset one; a message field is optional;
there is no field for rdma limits. The messages for solaris and windows are empty and not modelled.
-/

namespace Kata.Protocols

structure Box where
  height : UInt32
  width : UInt32

structure User where
  uid : UInt32 := 0
  gid : UInt32 := 0
  additionalGids : List UInt32 := []
  username : String := ""

structure LinuxCapabilities where
  bounding : List String
  effective : List String
  inheritable : List String
  permitted : List String
  ambient : List String

structure PosixRlimit where
  type : String
  hard : UInt64
  soft : UInt64

structure Process where
  terminal : Bool
  consoleSize : Option Box
  user : Option User
  args : List String
  env : List String
  cwd : String
  capabilities : Option LinuxCapabilities
  rlimits : List PosixRlimit
  noNewPrivileges : Bool
  apparmorProfile : String
  oomScoreAdj : Int64
  selinuxLabel : String

structure Root where
  path : String
  readonly : Bool

structure Mount where
  destination : String
  source : String
  type : String
  options : List String

structure Hook where
  path : String
  args : List String
  env : List String
  timeout : Int64

structure Hooks where
  prestart : List Hook
  poststart : List Hook
  poststop : List Hook
  createRuntime : List Hook
  createContainer : List Hook
  startContainer : List Hook

structure LinuxIdMapping where
  hostId : UInt32
  containerId : UInt32
  size : UInt32

structure LinuxNamespace where
  type : String
  path : String

structure LinuxDevice where
  path : String
  type : String
  major : Int64
  minor : Int64
  fileMode : UInt32
  uid : UInt32
  gid : UInt32

structure LinuxDeviceCgroup where
  allow : Bool
  type : String
  major : Int64
  minor : Int64
  access : String

structure LinuxMemory where
  limit : Int64
  reservation : Int64
  swap : Int64
  kernel : Int64
  kernelTcp : Int64
  swappiness : UInt64
  disableOomKiller : Bool

structure LinuxCpu where
  shares : UInt64
  quota : Int64
  period : UInt64
  realtimeRuntime : Int64
  realtimePeriod : UInt64
  cpus : String
  mems : String

structure LinuxPids where
  limit : Int64

structure LinuxWeightDevice where
  major : Int64
  minor : Int64
  weight : UInt32
  leafWeight : UInt32

structure LinuxThrottleDevice where
  major : Int64
  minor : Int64
  rate : UInt64

structure LinuxBlockIo where
  weight : UInt32
  leafWeight : UInt32
  weightDevice : List LinuxWeightDevice
  throttleReadBpsDevice : List LinuxThrottleDevice
  throttleWriteBpsDevice : List LinuxThrottleDevice
  throttleReadIopsDevice : List LinuxThrottleDevice
  throttleWriteIopsDevice : List LinuxThrottleDevice

structure LinuxHugepageLimit where
  pagesize : String
  limit : UInt64

structure LinuxInterfacePriority where
  name : String
  priority : UInt32

structure LinuxNetwork where
  classId : UInt32
  priorities : List LinuxInterfacePriority

structure LinuxResources where
  devices : List LinuxDeviceCgroup
  memory : Option LinuxMemory
  cpu : Option LinuxCpu
  pids : Option LinuxPids
  blockIo : Option LinuxBlockIo
  hugepageLimits : List LinuxHugepageLimit
  network : Option LinuxNetwork

structure LinuxSeccompArg where
  index : UInt64
  value : UInt64
  valueTwo : UInt64
  op : String

structure LinuxSyscall where
  names : List String
  action : String
  errnoRet : Option UInt32  -- `oneof` with one field
  args : List LinuxSeccompArg

structure LinuxSeccomp where
  defaultAction : String
  architectures : List String
  flags : List String
  syscalls : List LinuxSyscall

structure LinuxIntelRdt where
  l3CacheSchema : String

structure Linux where
  uidMappings : List LinuxIdMapping
  gidMappings : List LinuxIdMapping
  sysctl : Std.ExtHashMap String String
  resources : Option LinuxResources
  cgroupsPath : String
  namespaces : List LinuxNamespace
  devices : List LinuxDevice
  seccomp : Option LinuxSeccomp
  rootfsPropagation : String
  maskedPaths : List String
  readonlyPaths : List String
  mountLabel : String
  intelRdt : Option LinuxIntelRdt

structure Spec where
  version : String
  process : Option Process
  root : Option Root
  hostname : String
  mounts : List Mount
  hooks : Option Hooks
  annotations : Std.ExtHashMap String String
  linux : Option Linux

end Kata.Protocols
