import Mathlib.Data.String.Basic

/-!
# Kata.Oci.Spec

The OCI runtime specification as the `oci` crate has it (`libs/oci/src/lib.rs`): the process, the
mounts, the hooks and the Linux section with its resource limits. The solaris, windows and vm
sections are not modelled.
-/

namespace Kata.Oci

structure Box where
  height : UInt32
  width : UInt32
deriving DecidableEq, Repr

structure User where
  uid : UInt32
  gid : UInt32
  additionalGids : List UInt32
  username : String
deriving DecidableEq, Repr

structure LinuxCapabilities where
  bounding : List String
  effective : List String
  inheritable : List String
  permitted : List String
  ambient : List String
deriving DecidableEq, Repr

structure PosixRlimit where
  type : String
  hard : UInt64
  soft : UInt64
deriving DecidableEq, Repr

structure Process where
  terminal : Bool
  consoleSize : Option Box
  user : User
  args : List String
  env : List String
  cwd : String
  capabilities : Option LinuxCapabilities
  rlimits : List PosixRlimit
  noNewPrivileges : Bool
  apparmorProfile : String
  oomScoreAdj : Option Int32
  selinuxLabel : String
deriving DecidableEq

structure Root where
  path : String
  readonly : Bool
deriving DecidableEq, Repr

structure Mount where
  destination : String
  type : String
  source : String
  options : List String
deriving DecidableEq, Repr

structure Hook where
  path : String
  args : List String
  env : List String
  timeout : Option Int32
deriving DecidableEq

structure Hooks where
  prestart : List Hook
  createRuntime : List Hook
  createContainer : List Hook
  startContainer : List Hook
  poststart : List Hook
  poststop : List Hook
deriving DecidableEq

structure LinuxIdMapping where
  containerId : UInt32
  hostId : UInt32
  size : UInt32
deriving DecidableEq, Repr

structure LinuxNamespace where
  type : String
  path : String
deriving DecidableEq, Repr

structure LinuxDevice where
  path : String
  type : String
  major : Int64
  minor : Int64
  fileMode : Option UInt32
  uid : Option UInt32
  gid : Option UInt32
deriving DecidableEq

structure LinuxDeviceCgroup where
  allow : Bool := false
  type : String := ""
  major : Option Int64 := none
  minor : Option Int64 := none
  access : String := ""
deriving DecidableEq

structure LinuxMemory where
  limit : Option Int64 := none
  reservation : Option Int64 := none
  swap : Option Int64 := none
  kernel : Option Int64 := none
  kernelTcp : Option Int64 := none
  swappiness : Option UInt64 := none
  disableOomKiller : Option Bool := none
deriving DecidableEq

structure LinuxCpu where
  shares : Option UInt64 := none
  quota : Option Int64 := none
  period : Option UInt64 := none
  realtimeRuntime : Option Int64 := none
  realtimePeriod : Option UInt64 := none
  cpus : String := ""
  mems : String := ""
deriving DecidableEq

structure LinuxPids where
  limit : Int64
deriving DecidableEq

structure LinuxBlockIoDevice where
  major : Int64
  minor : Int64
deriving DecidableEq

structure LinuxWeightDevice where
  blk : LinuxBlockIoDevice
  weight : Option UInt16
  leafWeight : Option UInt16
deriving DecidableEq

structure LinuxThrottleDevice where
  blk : LinuxBlockIoDevice
  rate : UInt64
deriving DecidableEq

structure LinuxBlockIo where
  weight : Option UInt16
  leafWeight : Option UInt16
  weightDevice : List LinuxWeightDevice
  throttleReadBpsDevice : List LinuxThrottleDevice
  throttleWriteBpsDevice : List LinuxThrottleDevice
  throttleReadIopsDevice : List LinuxThrottleDevice
  throttleWriteIopsDevice : List LinuxThrottleDevice
deriving DecidableEq

structure LinuxHugepageLimit where
  pageSize : String
  limit : UInt64
deriving DecidableEq, Repr

structure LinuxInterfacePriority where
  name : String
  priority : UInt32
deriving DecidableEq, Repr

structure LinuxNetwork where
  classId : Option UInt32
  priorities : List LinuxInterfacePriority
deriving DecidableEq, Repr

structure LinuxRdma where
  hcaHandles : Option UInt32
  hcaObjects : Option UInt32
deriving DecidableEq, Repr

structure LinuxResources where
  devices : List LinuxDeviceCgroup := []
  memory : Option LinuxMemory := none
  cpu : Option LinuxCpu := none
  pids : Option LinuxPids := none
  blockIo : Option LinuxBlockIo := none
  hugepageLimits : List LinuxHugepageLimit := []
  network : Option LinuxNetwork := none
  rdma : Std.ExtHashMap String LinuxRdma := ∅

structure LinuxSeccompArg where
  index : UInt32
  value : UInt64
  valueTwo : UInt64
  op : String
deriving DecidableEq, Repr

structure LinuxSyscall where
  names : List String
  action : String
  errnoRet : UInt32
  args : List LinuxSeccompArg
deriving DecidableEq, Repr

structure LinuxSeccomp where
  defaultAction : String
  architectures : List String
  flags : List String
  syscalls : List LinuxSyscall
deriving DecidableEq, Repr

structure LinuxIntelRdt where
  l3CacheSchema : String
deriving DecidableEq, Repr

structure Linux where
  uidMappings : List LinuxIdMapping := []
  gidMappings : List LinuxIdMapping := []
  sysctl : Std.ExtHashMap String String := ∅
  resources : Option LinuxResources := none
  cgroupsPath : String := ""
  namespaces : List LinuxNamespace := []
  devices : List LinuxDevice := []
  seccomp : Option LinuxSeccomp := none
  rootfsPropagation : String := ""
  maskedPaths : List String := []
  readonlyPaths : List String := []
  mountLabel : String := ""
  intelRdt : Option LinuxIntelRdt := none

structure Spec where
  version : String := ""
  process : Option Process := none
  root : Option Root := none
  hostname : String := ""
  mounts : List Mount := []
  hooks : Option Hooks := none
  annotations : Std.ExtHashMap String String := ∅
  linux : Option Linux := none

end Kata.Oci
