import Kata.Oci.Trans

/-!
# Kata.Oci.Lossless

What an OCI specification loses on its way through ttRPC. `T.Same` compares what came back with what
was sent, where an optional limit of the resources may be absent on one side and zero (or false) on
the other, and everything else is equal; `T.Carried` says of a value that everything in it is
carried. `Spec.lossless_iff` puts the two together: nothing is lost if and only if

* the limits of memory and the cpu quotas are not negative,
* the numbers of device rules and the timeouts of hooks are absent or positive, and the oom score is not a present 0,
* the devices have a file mode, a uid and a gid,
* the devices of block I/O limits are `0:0`,
* there are no rdma limits and no `intelRdt`.

The types without optional limits come back as they were (`*_back`, and `*_back_iff` where that has
a condition).
-/

namespace Kata.Oci

open Lib

/-! ## Scalars -/

theorem positive_iff (o : Option Int64) : SameOr 0 (optional (0 < ·) id (o.elim 0 id)) o ↔ ∀ v ∈ o, 0 ≤ v := by
  refine Iff.trans (sameOr_optional_iff (z := 0) (w := 0) id_eq (id_eq 0) o) (forall₂_congr fun v _ => ?_)
  rw [Int64.le_iff_lt_or_eq]
  exact or_congr_right eq_comm

theorem number_back_iff (o : Option Int64) : optional (0 < ·) id (o.elim 0 id) = o ↔ ∀ v ∈ o, 0 < v :=
  optional_eq_iff id_eq (by decide) o

theorem timeout_back_iff (o : Option Int32) :
    optional (0 < ·) Int64.toInt32 (o.elim 0 Int32.toInt64) = o ↔ ∀ v ∈ o, 0 < v :=
  (optional_eq_iff Int32.toInt32_toInt64 (by decide) o).trans (forall₂_congr fun _ _ => Int32.toInt64_lt (a := 0))

theorem oomScoreAdj_back_iff (o : Option Int32) :
    optional (· ≠ 0) Int64.toInt32 (o.elim 0 Int32.toInt64) = o ↔ ∀ v ∈ o, v ≠ 0 := by
  have hinj := Function.LeftInverse.injective Int32.toInt32_toInt64
  exact (optional_eq_iff Int32.toInt32_toInt64 (by decide) o).trans (forall₂_congr fun _ _ => hinj.ne_iff' rfl)

theorem u64_same (o : Option UInt64) : SameOr 0 (optional (0 < ·) id (o.elim 0 id)) o := by
  refine Iff.mpr (sameOr_optional_iff (z := 0) (w := 0) id_eq (id_eq 0) o) fun v _ => ?_
  rw [UInt64.pos_iff_ne_zero]
  exact (em (v = 0)).symm

theorem u32_same (o : Option UInt32) : SameOr 0 (optional (0 < ·) id (o.elim 0 id)) o := by
  refine Iff.mpr (sameOr_optional_iff (z := 0) (w := 0) id_eq (id_eq 0) o) fun v _ => ?_
  rw [UInt32.pos_iff_ne_zero]
  exact (em (v = 0)).symm

theorem weight_some (o : Option UInt16) : SameOr 0 (some (o.elim 0 UInt16.toUInt32).toUInt16) o :=
  sameOr_some_elim (z := 0) (w := 0) UInt16.toUInt16_toUInt32 rfl o

theorem weight_same (o : Option UInt16) :
    SameOr 0 (optional (0 < ·) UInt32.toUInt16 (o.elim 0 UInt16.toUInt32)) o := by
  refine Iff.mpr (sameOr_optional_iff (z := 0) (w := 0) UInt16.toUInt16_toUInt32 rfl o) fun v _ => ?_
  by_cases hv : v = 0
  · exact .inr hv
  · exact .inl (UInt32.pos_iff_ne_zero.mpr fun h => hv (UInt16.toUInt32_inj.mp h))

/-! ## Types that come back as they were -/

theorem seccompArg_back (a : LinuxSeccompArg) : LinuxSeccompArg.from (.from a) = a := by
  cases a with
  | mk index value valueTwo op =>
    simp only [LinuxSeccompArg.from, Protocols.LinuxSeccompArg.from, UInt32.toUInt32_toUInt64]

theorem syscall_back (s : LinuxSyscall) : LinuxSyscall.from (.from s) = s := by
  cases s with
  | mk names action errnoRet args =>
    simp only [LinuxSyscall.from, Protocols.LinuxSyscall.from, Option.getD_some, map_back seccompArg_back]

theorem seccomp_back (s : LinuxSeccomp) : LinuxSeccomp.from (.from s) = s := by
  cases s with
  | mk defaultAction architectures flags syscalls =>
    simp only [LinuxSeccomp.from, Protocols.LinuxSeccomp.from, map_back syscall_back]

/-! ## Resources -/

structure LinuxDeviceCgroup.Carried (d : LinuxDeviceCgroup) : Prop where
  major : ∀ v ∈ d.major, 0 < v
  minor : ∀ v ∈ d.minor, 0 < v

theorem LinuxDeviceCgroup.back_iff (d : LinuxDeviceCgroup) : LinuxDeviceCgroup.from (.from d) = d ↔ d.Carried := by
  constructor
  · intro h
    exact ⟨(number_back_iff _).mp (congrArg major h), (number_back_iff _).mp (congrArg minor h)⟩
  · intro h
    cases d with
    | mk allow type major minor access =>
      simp only [LinuxDeviceCgroup.from, Protocols.LinuxDeviceCgroup.from, (number_back_iff major).mpr h.major,
        (number_back_iff minor).mpr h.minor]

structure LinuxMemory.Same (a b : LinuxMemory) : Prop where
  limit : SameOr 0 a.limit b.limit
  reservation : SameOr 0 a.reservation b.reservation
  swap : SameOr 0 a.swap b.swap
  kernel : SameOr 0 a.kernel b.kernel
  kernelTcp : SameOr 0 a.kernelTcp b.kernelTcp
  swappiness : SameOr 0 a.swappiness b.swappiness
  disableOomKiller : SameOr false a.disableOomKiller b.disableOomKiller

structure LinuxMemory.Carried (m : LinuxMemory) : Prop where
  limit : ∀ v ∈ m.limit, 0 ≤ v
  reservation : ∀ v ∈ m.reservation, 0 ≤ v
  swap : ∀ v ∈ m.swap, 0 ≤ v
  kernel : ∀ v ∈ m.kernel, 0 ≤ v
  kernelTcp : ∀ v ∈ m.kernelTcp, 0 ≤ v

theorem LinuxMemory.same_from_iff (m : LinuxMemory) : Same (.from (.from m)) m ↔ m.Carried := by
  constructor
  · intro h
    exact ⟨(positive_iff _).mp h.limit, (positive_iff _).mp h.reservation, (positive_iff _).mp h.swap,
      (positive_iff _).mp h.kernel, (positive_iff _).mp h.kernelTcp⟩
  · intro h
    exact ⟨(positive_iff _).mpr h.limit, (positive_iff _).mpr h.reservation, (positive_iff _).mpr h.swap,
      (positive_iff _).mpr h.kernel, (positive_iff _).mpr h.kernelTcp, u64_same _,
      sameOr_some_elim_id _⟩

structure LinuxCpu.Same (a b : LinuxCpu) : Prop where
  shares : SameOr 0 a.shares b.shares
  quota : SameOr 0 a.quota b.quota
  period : SameOr 0 a.period b.period
  realtimeRuntime : SameOr 0 a.realtimeRuntime b.realtimeRuntime
  realtimePeriod : SameOr 0 a.realtimePeriod b.realtimePeriod
  cpus : a.cpus = b.cpus
  mems : a.mems = b.mems

structure LinuxCpu.Carried (c : LinuxCpu) : Prop where
  quota : ∀ v ∈ c.quota, 0 ≤ v
  realtimeRuntime : ∀ v ∈ c.realtimeRuntime, 0 ≤ v

theorem LinuxCpu.same_from_iff (c : LinuxCpu) : Same (.from (.from c)) c ↔ c.Carried := by
  constructor
  · intro h
    exact ⟨(positive_iff _).mp h.quota, (positive_iff _).mp h.realtimeRuntime⟩
  · intro h
    exact ⟨u64_same _, (positive_iff _).mpr h.quota, u64_same _, (positive_iff _).mpr h.realtimeRuntime,
      u64_same _, rfl, rfl⟩

structure LinuxWeightDevice.Same (a b : LinuxWeightDevice) : Prop where
  blk : a.blk = b.blk
  weight : SameOr 0 a.weight b.weight
  leafWeight : SameOr 0 a.leafWeight b.leafWeight

def LinuxWeightDevice.Carried (d : LinuxWeightDevice) : Prop := d.blk = ⟨0, 0⟩

theorem LinuxWeightDevice.same_from_iff (d : LinuxWeightDevice) : Same (.from (.from d)) d ↔ d.Carried := by
  constructor
  · intro h
    exact h.blk.symm
  · intro h
    exact ⟨h.symm, weight_some _, weight_some _⟩

def LinuxThrottleDevice.Carried (d : LinuxThrottleDevice) : Prop := d.blk = ⟨0, 0⟩

theorem LinuxThrottleDevice.back_iff (d : LinuxThrottleDevice) :
    LinuxThrottleDevice.from (.from d) = d ↔ d.Carried := by
  constructor
  · intro h
    exact (congrArg LinuxThrottleDevice.blk h).symm
  · intro h
    cases d with
    | mk blk rate =>
      cases h
      rfl

structure LinuxBlockIo.Same (a b : LinuxBlockIo) : Prop where
  weight : SameOr 0 a.weight b.weight
  leafWeight : SameOr 0 a.leafWeight b.leafWeight
  weightDevice : List.Forall₂ LinuxWeightDevice.Same a.weightDevice b.weightDevice
  throttleReadBpsDevice : a.throttleReadBpsDevice = b.throttleReadBpsDevice
  throttleWriteBpsDevice : a.throttleWriteBpsDevice = b.throttleWriteBpsDevice
  throttleReadIopsDevice : a.throttleReadIopsDevice = b.throttleReadIopsDevice
  throttleWriteIopsDevice : a.throttleWriteIopsDevice = b.throttleWriteIopsDevice

structure LinuxBlockIo.Carried (b : LinuxBlockIo) : Prop where
  weightDevice : ∀ d ∈ b.weightDevice, d.Carried
  throttleReadBpsDevice : ∀ d ∈ b.throttleReadBpsDevice, d.Carried
  throttleWriteBpsDevice : ∀ d ∈ b.throttleWriteBpsDevice, d.Carried
  throttleReadIopsDevice : ∀ d ∈ b.throttleReadIopsDevice, d.Carried
  throttleWriteIopsDevice : ∀ d ∈ b.throttleWriteIopsDevice, d.Carried

theorem LinuxBlockIo.same_from_iff (b : LinuxBlockIo) : Same (.from (.from b)) b ↔ b.Carried := by
  have hweight := forall₂_map_iff LinuxWeightDevice.same_from_iff
  have hthrottle := map_back_eq_iff LinuxThrottleDevice.back_iff
  constructor
  · intro h
    exact ⟨(hweight _).mp h.weightDevice, (hthrottle _).mp h.throttleReadBpsDevice,
      (hthrottle _).mp h.throttleWriteBpsDevice, (hthrottle _).mp h.throttleReadIopsDevice,
      (hthrottle _).mp h.throttleWriteIopsDevice⟩
  · intro h
    exact ⟨weight_same _, weight_same _, (hweight _).mpr h.weightDevice, (hthrottle _).mpr h.throttleReadBpsDevice,
      (hthrottle _).mpr h.throttleWriteBpsDevice, (hthrottle _).mpr h.throttleReadIopsDevice,
      (hthrottle _).mpr h.throttleWriteIopsDevice⟩

structure LinuxNetwork.Same (a b : LinuxNetwork) : Prop where
  classId : SameOr 0 a.classId b.classId
  priorities : a.priorities = b.priorities

theorem LinuxNetwork.same_from (n : LinuxNetwork) : Same (.from (.from n)) n :=
  ⟨u32_same _, map_back (fun _ => rfl) _⟩

structure LinuxRdma.Same (a b : LinuxRdma) : Prop where
  hcaHandles : SameOr 0 a.hcaHandles b.hcaHandles
  hcaObjects : SameOr 0 a.hcaObjects b.hcaObjects

structure LinuxResources.Same (a b : LinuxResources) : Prop where
  devices : a.devices = b.devices
  memory : Option.Rel LinuxMemory.Same a.memory b.memory
  cpu : Option.Rel LinuxCpu.Same a.cpu b.cpu
  pids : a.pids = b.pids
  blockIo : Option.Rel LinuxBlockIo.Same a.blockIo b.blockIo
  hugepageLimits : a.hugepageLimits = b.hugepageLimits
  network : Option.Rel LinuxNetwork.Same a.network b.network
  rdma : ∀ name : String, Option.Rel LinuxRdma.Same a.rdma[name]? b.rdma[name]?

structure LinuxResources.Carried (r : LinuxResources) : Prop where
  devices : ∀ d ∈ r.devices, d.Carried
  memory : ∀ m ∈ r.memory, m.Carried
  cpu : ∀ c ∈ r.cpu, c.Carried
  blockIo : ∀ b ∈ r.blockIo, b.Carried
  rdma : r.rdma = ∅

/-- What comes back has no rdma limits, so nothing may have been there. -/
theorem rdma_iff (m : Std.ExtHashMap String LinuxRdma) :
    (∀ name : String, Option.Rel LinuxRdma.Same (∅ : Std.ExtHashMap String LinuxRdma)[name]? m[name]?) ↔ m = ∅ := by
  constructor
  · intro h
    refine Std.ExtHashMap.ext_getElem? fun name => ?_
    have hname := h name
    rw [Std.ExtHashMap.getElem?_empty] at hname ⊢
    cases hm : m[name]? with
    | none => rfl
    | some r =>
      rw [hm] at hname
      cases hname
  · intro h name
    rw [h, Std.ExtHashMap.getElem?_empty]
    exact .none

theorem LinuxResources.same_from_iff (r : LinuxResources) : Same (.from (.from r)) r ↔ r.Carried := by
  have hdevices := map_back_eq_iff LinuxDeviceCgroup.back_iff r.devices
  have hmemory := rel_map_iff LinuxMemory.same_from_iff r.memory
  have hcpu := rel_map_iff LinuxCpu.same_from_iff r.cpu
  have hblockIo := rel_map_iff LinuxBlockIo.same_from_iff r.blockIo
  have hnetwork := rel_map_iff (fun n => iff_true_intro (LinuxNetwork.same_from n)) r.network
  constructor
  · intro h
    exact ⟨hdevices.mp h.devices, hmemory.mp h.memory, hcpu.mp h.cpu, hblockIo.mp h.blockIo,
      (rdma_iff r.rdma).mp h.rdma⟩
  · intro h
    exact ⟨hdevices.mpr h.devices, hmemory.mpr h.memory, hcpu.mpr h.cpu, option_map_back (fun _ => rfl) _,
      hblockIo.mpr h.blockIo, map_back (fun _ => rfl) _, hnetwork.mpr fun _ _ => trivial,
      (rdma_iff r.rdma).mpr h.rdma⟩

/-! ## The Linux section -/

structure LinuxDevice.Carried (d : LinuxDevice) : Prop where
  fileMode : d.fileMode.isSome
  uid : d.uid.isSome
  gid : d.gid.isSome

theorem LinuxDevice.back_iff (d : LinuxDevice) : LinuxDevice.from (.from d) = d ↔ d.Carried := by
  constructor
  · intro h
    exact ⟨(some_elim_eq_iff _).mp (congrArg fileMode h), (some_elim_eq_iff _).mp (congrArg uid h),
      (some_elim_eq_iff _).mp (congrArg gid h)⟩
  · intro h
    cases d with
    | mk path type major minor fileMode uid gid =>
      simp only [LinuxDevice.from, Protocols.LinuxDevice.from, (some_elim_eq_iff fileMode).mpr h.fileMode,
        (some_elim_eq_iff uid).mpr h.uid, (some_elim_eq_iff gid).mpr h.gid]

structure Linux.Same (a b : Linux) : Prop where
  uidMappings : a.uidMappings = b.uidMappings
  gidMappings : a.gidMappings = b.gidMappings
  sysctl : a.sysctl = b.sysctl
  resources : Option.Rel LinuxResources.Same a.resources b.resources
  cgroupsPath : a.cgroupsPath = b.cgroupsPath
  namespaces : a.namespaces = b.namespaces
  devices : a.devices = b.devices
  seccomp : a.seccomp = b.seccomp
  rootfsPropagation : a.rootfsPropagation = b.rootfsPropagation
  maskedPaths : a.maskedPaths = b.maskedPaths
  readonlyPaths : a.readonlyPaths = b.readonlyPaths
  mountLabel : a.mountLabel = b.mountLabel
  intelRdt : a.intelRdt = b.intelRdt

structure Linux.Carried (l : Linux) : Prop where
  resources : ∀ r ∈ l.resources, r.Carried
  devices : ∀ d ∈ l.devices, d.Carried
  intelRdt : l.intelRdt = none

theorem Linux.same_from_iff (l : Linux) : Same (.from (.from l)) l ↔ l.Carried := by
  have hresources := rel_map_iff LinuxResources.same_from_iff l.resources
  have hdevices := map_back_eq_iff LinuxDevice.back_iff l.devices
  constructor
  · intro h
    exact ⟨hresources.mp h.resources, hdevices.mp h.devices, h.intelRdt.symm⟩
  · intro h
    exact ⟨map_back (fun _ => rfl) _, map_back (fun _ => rfl) _, rfl, hresources.mpr h.resources, rfl,
      map_back (fun _ => rfl) _, hdevices.mpr h.devices, option_map_back seccomp_back _, rfl, rfl, rfl, rfl,
      h.intelRdt.symm⟩

/-! ## The specification -/

def Process.Carried (p : Process) : Prop := ∀ v ∈ p.oomScoreAdj, v ≠ 0

theorem Process.back_iff (p : Process) : Process.from (.from p) = p ↔ p.Carried := by
  constructor
  · intro h
    exact (oomScoreAdj_back_iff _).mp (congrArg oomScoreAdj h)
  · intro h
    have hconsole : (p.consoleSize.map Protocols.Box.from).map Box.from = p.consoleSize :=
      option_map_back (fun _ => rfl) _
    have hcapabilities : (p.capabilities.map Protocols.LinuxCapabilities.from).map LinuxCapabilities.from =
        p.capabilities := option_map_back (fun _ => rfl) _
    have hrlimits : (p.rlimits.map Protocols.PosixRlimit.from).map PosixRlimit.from = p.rlimits :=
      map_back (fun _ => rfl) _
    have hoom := (oomScoreAdj_back_iff p.oomScoreAdj).mpr h
    simp only [Process.from, Protocols.Process.from, hconsole, hcapabilities, hrlimits, hoom]
    rfl

def Hook.Carried (h : Hook) : Prop := ∀ v ∈ h.timeout, 0 < v

theorem Hook.back_iff (h : Hook) : Hook.from (.from h) = h ↔ h.Carried := by
  constructor
  · intro hs
    exact (timeout_back_iff _).mp (congrArg timeout hs)
  · intro hc
    simp only [Hook.from, Protocols.Hook.from, (timeout_back_iff h.timeout).mpr hc]

structure Hooks.Carried (h : Hooks) : Prop where
  prestart : ∀ k ∈ h.prestart, k.Carried
  createRuntime : ∀ k ∈ h.createRuntime, k.Carried
  createContainer : ∀ k ∈ h.createContainer, k.Carried
  startContainer : ∀ k ∈ h.startContainer, k.Carried
  poststart : ∀ k ∈ h.poststart, k.Carried
  poststop : ∀ k ∈ h.poststop, k.Carried

theorem Hooks.back_iff (h : Hooks) : Hooks.from (.from h) = h ↔ h.Carried := by
  have hhook := map_back_eq_iff Hook.back_iff
  constructor
  · intro hs
    exact ⟨(hhook _).mp (congrArg prestart hs), (hhook _).mp (congrArg createRuntime hs),
      (hhook _).mp (congrArg createContainer hs), (hhook _).mp (congrArg startContainer hs),
      (hhook _).mp (congrArg poststart hs), (hhook _).mp (congrArg poststop hs)⟩
  · intro hc
    simp only [Hooks.from, Protocols.Hooks.from, (hhook _).mpr hc.prestart, (hhook _).mpr hc.createRuntime,
      (hhook _).mpr hc.createContainer, (hhook _).mpr hc.startContainer, (hhook _).mpr hc.poststart,
      (hhook _).mpr hc.poststop]

structure Spec.Same (a b : Spec) : Prop where
  version : a.version = b.version
  process : a.process = b.process
  root : a.root = b.root
  hostname : a.hostname = b.hostname
  mounts : a.mounts = b.mounts
  hooks : a.hooks = b.hooks
  annotations : a.annotations = b.annotations
  linux : Option.Rel Linux.Same a.linux b.linux

structure Spec.Carried (s : Spec) : Prop where
  process : ∀ p ∈ s.process, p.Carried
  hooks : ∀ h ∈ s.hooks, h.Carried
  linux : ∀ l ∈ s.linux, l.Carried

theorem Spec.lossless_iff (s : Spec) : Same (.from (.from s)) s ↔ s.Carried := by
  have hprocess := option_map_back_eq_iff Process.back_iff s.process
  have hhooks := option_map_back_eq_iff Hooks.back_iff s.hooks
  have hlinux := rel_map_iff Linux.same_from_iff s.linux
  constructor
  · intro h
    exact ⟨hprocess.mp h.process, hhooks.mp h.hooks, hlinux.mp h.linux⟩
  · intro h
    exact ⟨rfl, hprocess.mpr h.process, option_map_back (fun _ => rfl) _, rfl, map_back (fun _ => rfl) _,
      hhooks.mpr h.hooks, rfl, hlinux.mpr h.linux⟩

/-- An unlimited cpu quota, as a runtime writes it. -/
def unlimitedQuota : Spec :=
  { linux := some { resources := some { cpu := some { quota := some (-1) } } } }

theorem unlimitedQuota_lost : ¬ Spec.Same (.from (.from unlimitedQuota)) unlimitedQuota := by
  intro h
  cases h.linux with
  | some hl =>
    cases hl.resources with
    | some hr =>
      cases hr.cpu with
      | some hc => exact absurd ((positive_iff (some (-1))).mp hc.quota (-1) rfl) (by decide)

end Kata.Oci
