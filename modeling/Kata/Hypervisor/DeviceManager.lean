import Kata.Lib.Ledger
import Kata.Lib.Letters
import Kata.Lib.Runs
import Mathlib.Data.List.AList
import Mathlib.Data.List.Sort

/-!
# Kata.Hypervisor.DeviceManager

The device manager of runtime-rs (`runtime-rs/crates/hypervisor/src/device/device_manager.rs`) and
the drivers of the devices that get an index from it: block devices, VFIO devices of block type and
vhost-user-blk devices.

An error is the list of its contexts, the outermost first. The host and the hypervisor answer in the
arguments: `none` is a call that succeeds.
-/

namespace Kata.Hypervisor

abbrev Error := List String

/-! ## Indexes -/

inductive Panic where
  | overflow
  | unwrapNone
deriving DecidableEq

/-- `declare_index!`: the index, and the counter and the list afterwards. The counter advances in
both cases. -/
def declareIndex (checks : Bool) (index : Nat) (releasedIndex : List Nat) : Except Panic (Nat × Nat × List Nat) :=
  let (currentIndex, releasedIndex) :=
    match releasedIndex.getLast? with
    | some i => (i, releasedIndex.dropLast)
    | none => (index, releasedIndex)
  if index + 1 < 2 ^ 64 then .ok (currentIndex, index + 1, releasedIndex)
  else if checks then .error .overflow
  else .ok (currentIndex, 0, releasedIndex)

/-- `release_index!` -/
def releaseIndex (index : Nat) (releasedIndex : List Nat) : List Nat :=
  (releasedIndex ++ [index]).insertionSort (· ≥ ·)

structure SharedInfo where
  pmemIndex : Nat
  blockIndex : Nat
  releasedPmemIndex : List Nat
  releasedBlockIndex : List Nat

namespace SharedInfo

def new : SharedInfo := ⟨0, 0, [], []⟩

def declareDeviceIndex (checks isPmem : Bool) (info : SharedInfo) : Except Panic (Nat × SharedInfo) :=
  if isPmem then do
    let (i, index, released) ← declareIndex checks info.pmemIndex info.releasedPmemIndex
    return (i, { info with pmemIndex := index, releasedPmemIndex := released })
  else do
    let (i, index, released) ← declareIndex checks info.blockIndex info.releasedBlockIndex
    return (i, { info with blockIndex := index, releasedBlockIndex := released })

def releaseDeviceIndex (index : Nat) (isPmem : Bool) (info : SharedInfo) : SharedInfo :=
  if isPmem then { info with releasedPmemIndex := releaseIndex index info.releasedPmemIndex }
  else { info with releasedBlockIndex := releaseIndex index info.releasedBlockIndex }

end SharedInfo

/-! ## Drive names -/

/-- `as i32` -/
def asI32 (index : Nat) : Int := Int.bmod index (2 ^ 32)

def getVirtDriveName (index : Int) : Except Error String :=
  if index < 0 then .error ["Index cannot be negative"]
  else
    let (letters, index) := Lib.letters (32 - 2) index
    if 0 ≤ index then .error ["Index not supported"] else .ok ("vd" ++ String.ofList letters.reverse)

/-! ## Devices -/

def deviceTypeBlock : String := "b"
def virtioBlockPci : String := "virtio-blk-pci"
def virtioBlockMmio : String := "virtio-blk-mmio"
def virtioPmem : String := "virtio-pmem"
def kataMmioBlkDevType : String := "mmioblk"
def kataBlkDevType : String := "blk"
def kataNvdimmDevType : String := "nvdimm"

structure BlockConfig where
  pathOnHost : String
  index : Nat
  driverOption : String
  virtPath : String

structure VfioConfig where
  hostPath : String
  devType : String
  virtPath : Option (Nat × String)

structure VhostUserConfig where
  socketPath : String
  driverOption : String
  index : Nat
  virtPath : String

inductive DeviceConfig where
  | blockCfg (config : BlockConfig)
  | vfioCfg (config : VfioConfig)
  | vhostUserBlkCfg (config : VhostUserConfig)

/-- What `find_device` compares. -/
def DeviceConfig.path : DeviceConfig → String
  | .blockCfg config => config.pathOnHost
  | .vfioCfg config => config.hostPath
  | .vhostUserBlkCfg config => config.socketPath

/-- `BlockDevice`, `VfioDevice` or `VhostUserBlkDevice`, by its configuration. -/
structure Device where
  attachCount : Nat
  config : DeviceConfig

namespace Device

def new (config : DeviceConfig) : Device := ⟨0, config⟩

/-- The same in each driver. Whether the device was attached before. -/
def increaseAttachCount (device : Device) : Except Error Bool × Device :=
  if device.attachCount = 0 then (.ok false, { device with attachCount := 1 })
  else if device.attachCount = 2 ^ 64 - 1 then (.error ["device was attached too many times"], device)
  else (.ok true, { device with attachCount := device.attachCount + 1 })

/-- The same in each driver. Whether the device is still attached. -/
def decreaseAttachCount (device : Device) : Except Error Bool × Device :=
  if device.attachCount = 0 then (.error ["detaching a device that wasn't attached"], device)
  else if device.attachCount = 1 then (.ok false, { device with attachCount := 0 })
  else (.ok true, { device with attachCount := device.attachCount - 1 })

/-- The answers to `attach`: for a VFIO device there is the lookup of its IOMMU group before and the
PCI paths after. -/
structure Answers where
  iommuGroup : Option Error
  addDevice : Option Error
  guestPciPath : Option Error

/-- The end of `attach`, when the hypervisor has failed. -/
def rollback (e : Error) (device : Device) : Except Error Unit × Device :=
  match device.decreaseAttachCount with
  | (.error e', device) => (.error e', device)
  | (.ok _, device) => (.error e, device)

def attachVfio (answers : Answers) (device : Device) : Except Error Unit × Device :=
  match answers.iommuGroup with
  | some e => (.error e, device)
  | none =>
    match device.increaseAttachCount with
    | (.error e, device) => (.error ("failed to increase attach count" :: e), device)
    | (.ok true, device) => (.error ["attach count increased failed as some reason."], device)
    | (.ok false, device) =>
      match answers.addDevice with
      | some e => rollback e device
      | none =>
        match answers.guestPciPath with
        | some e => (.error e, device)
        | none => (.ok (), device)

/-- `BlockDevice::attach` and `VhostUserBlkDevice::attach` -/
def attachBlock (answers : Answers) (device : Device) : Except Error Unit × Device :=
  match device.increaseAttachCount with
  | (.error e, device) => (.error ("failed to increase attach count" :: e), device)
  | (.ok true, device) => (.ok (), device)
  | (.ok false, device) =>
    match answers.addDevice with
    | some e => rollback e device
    | none => (.ok (), device)

def attach (answers : Answers) (device : Device) : Except Error Unit × Device :=
  match device.config with
  | .blockCfg _ => attachBlock answers device
  | .vfioCfg _ => attachVfio answers device
  | .vhostUserBlkCfg _ => attachBlock answers device

/-- What `detach` returns in the end. -/
def detachedIndex : DeviceConfig → Option Nat
  | .blockCfg config => some config.index
  | .vfioCfg config => config.virtPath.map Prod.fst
  | .vhostUserBlkCfg config => some config.index

def detach (removeDevice : Option Error) (device : Device) : Except Error (Option Nat) × Device :=
  match device.decreaseAttachCount with
  | (.error e, device) => (.error ("failed to decrease attach count" :: e), device)
  | (.ok true, device) => (.ok none, device)
  | (.ok false, device) =>
    match removeDevice with
    | some e =>
      match device.increaseAttachCount with
      | (.error e', device) => (.error e', device)
      | (.ok _, device) => (.error e, device)
    | none => (.ok (detachedIndex device.config), device)

end Device

/-! ## The manager -/

structure DeviceManager where
  devices : AList fun _ : String => Device
  sharedInfo : SharedInfo

namespace DeviceManager

def new : DeviceManager := ⟨∅, .new⟩

def tryAddDevice (answers : Device.Answers) (deviceId : String) (m : DeviceManager) :
    Except Panic (Except Error Unit × DeviceManager) :=
  match m.devices.lookup deviceId with
  | none => .ok (.error ["failed to find device"], m)
  | some device =>
    match device.attach answers with
    | (.ok (), device) => .ok (.ok (), { m with devices := m.devices.insert deviceId device })
    | (.error e, device) => do
      let sharedInfo ← match device.config with
        | .blockCfg config =>
          pure (m.sharedInfo.releaseDeviceIndex config.index (config.driverOption == kataNvdimmDevType))
        | .vfioCfg config =>
          if config.devType = deviceTypeBlock then
            match config.virtPath with
            | some (index, _) => pure (m.sharedInfo.releaseDeviceIndex index false)
            | none => .error .unwrapNone
          else pure m.sharedInfo
        | .vhostUserBlkCfg config => pure (m.sharedInfo.releaseDeviceIndex config.index false)
      return (.error e, ⟨m.devices.erase deviceId, sharedInfo⟩)

def tryRemoveDevice (removeDevice : Option Error) (deviceId : String) (m : DeviceManager) :
    Except Error Unit × DeviceManager :=
  match m.devices.lookup deviceId with
  | none => (.error ["device with specified ID hasn't been created. " ++ deviceId], m)
  | some device =>
    match device.detach removeDevice with
    | (.error e, device) => (.error e, { m with devices := m.devices.insert deviceId device })
    | (.ok index, device) =>
      let sharedInfo :=
        match index with
        | some i =>
          let isPmem :=
            match device.config with
            | .blockCfg config => config.driverOption == kataNvdimmDevType
            | _ => false
          m.sharedInfo.releaseDeviceIndex i isPmem
        | none => m.sharedInfo
      (.ok (), ⟨m.devices.erase deviceId, sharedInfo⟩)

/-- The order of the search is the map's own. -/
def findDevice (hostPath : String) (m : DeviceManager) : Option String :=
  (m.devices.entries.find? fun entry => entry.2.config.path = hostPath).map Sigma.fst

def getDevVirtPath (checks : Bool) (devType : String) (isPmem : Bool) (m : DeviceManager) :
    Except Panic (Except Error (Option (Nat × String)) × DeviceManager) :=
  if devType = deviceTypeBlock then do
    let (currentIndex, sharedInfo) ← m.sharedInfo.declareDeviceIndex checks isPmem
    let m := { m with sharedInfo := sharedInfo }
    let driveName := if isPmem then .ok s!"pmem{currentIndex}" else getVirtDriveName (asI32 currentIndex)
    match driveName with
    | .error e => return (.error e, m)
    | .ok driveName => return (.ok (some (currentIndex, s!"/dev/{driveName}")), m)
  else return (.ok none, m)

/-- "convert the block driver to kata type", for vhost-user-blk devices -/
def vhostBlkDriver (driverOption : String) : Option String :=
  if driverOption = virtioBlockMmio then some kataMmioBlkDevType
  else if driverOption = virtioBlockPci then some kataBlkDevType
  else none

/-- The same for block devices, and whether it is a pmem device. -/
def blockDriver (driverOption : String) : Option (String × Bool) :=
  if driverOption = virtioBlockMmio then some (kataMmioBlkDevType, false)
  else if driverOption = virtioBlockPci then some (kataBlkDevType, false)
  else if driverOption = virtioPmem then some (kataNvdimmDevType, true)
  else none

def createVhostBlkDevice (checks : Bool) (config : VhostUserConfig) (m : DeviceManager) :
    Except Panic (Except Error Device × DeviceManager) :=
  match vhostBlkDriver config.driverOption with
  | none => .ok (.error [s!"unsupported driver type {config.driverOption}"], m)
  | some driverOption => do
    let (virtPath, m) ← m.getDevVirtPath checks deviceTypeBlock false
    match virtPath with
    | .error e => return (.error e, m)
    | .ok none => return (.ok (.new (.vhostUserBlkCfg { config with driverOption := driverOption })), m)
    | .ok (some (index, virtPath)) =>
      let config := { config with driverOption := driverOption, index := index, virtPath := virtPath }
      return (.ok (.new (.vhostUserBlkCfg config)), m)

/-- `hostPath` is what `get_host_path` finds for the device's numbers. -/
def createBlockDevice (checks : Bool) (hostPath : Except Error String) (config : BlockConfig) (m : DeviceManager) :
    Except Panic (Except Error Device × DeviceManager) :=
  match blockDriver config.driverOption with
  | none => .ok (.error [s!"unsupported driver type {config.driverOption}"], m)
  | some (driverOption, isPmem) => do
    let (virtPath, m) ← m.getDevVirtPath checks deviceTypeBlock isPmem
    match virtPath with
    | .error e => return (.error e, m)
    | .ok virtPath =>
      let config := { config with driverOption := driverOption }
      let config :=
        match virtPath with
        | some (index, virtPath) => { config with index := index, virtPath := virtPath }
        | none => config
      -- the index has been declared by now
      if config.pathOnHost.isEmpty then
        match hostPath with
        | .error e => return (.error ("failed to get host path" :: e), m)
        | .ok path => return (.ok (.new (.blockCfg { config with pathOnHost := path })), m)
      else return (.ok (.new (.blockCfg config)), m)

/-- `random` are the ids that are tried. -/
def newDeviceId (random : Nat → String) (m : DeviceManager) : Except Error String :=
  match ((List.range 5).map random).find? fun id => (m.devices.lookup id).isNone with
  | some id => .ok id
  | none => .error ["ID are exhausted"]

/-- The device for the configuration, if there is none with its path yet. -/
def createDevice (checks : Bool) (hostPath : Except Error String) (config : DeviceConfig) (m : DeviceManager) :
    Except Panic (Except Error Device × DeviceManager) :=
  match config with
  | .blockCfg config => do
    let (device, m) ← m.createBlockDevice checks hostPath config
    return (device.mapError ("failed to create device" :: ·), m)
  | .vfioCfg config => do
    let (virtPath, m) ← m.getDevVirtPath checks config.devType false
    match virtPath with
    | .error e => return (.error e, m)
    | .ok virtPath => return (.ok (.new (.vfioCfg { config with virtPath := virtPath })), m)
  | .vhostUserBlkCfg config => do
    let (device, m) ← m.createVhostBlkDevice checks config
    return (device.mapError ("failed to create vhost blk device" :: ·), m)

def newDevice (checks : Bool) (random : Nat → String) (hostPath : Except Error String) (config : DeviceConfig)
    (m : DeviceManager) : Except Panic (Except Error String × DeviceManager) :=
  match m.newDeviceId random with
  | .error e => .ok (.error e, m)
  | .ok deviceId =>
    match m.findDevice config.path with
    | some matchedId => .ok (.ok matchedId, m)
    | none => do
      let (device, m) ← m.createDevice checks hostPath config
      match device with
      | .error e => return (.error e, m)
      | .ok device => return (.ok deviceId, { m with devices := m.devices.insert deviceId device })

end DeviceManager

/-! ## The system -/

inductive Op where
  | newDevice (random : Nat → String) (hostPath : Except Error String) (config : DeviceConfig)
  | tryAddDevice (answers : Device.Answers) (deviceId : String)
  | tryRemoveDevice (removeDevice : Option Error) (deviceId : String)

/-- After a panic there is no manager. -/
def next (checks : Bool) : Option DeviceManager → Op → Option DeviceManager
  | none, _ => none
  | some m, .newDevice random hostPath config => ((m.newDevice checks random hostPath config).map Prod.snd).toOption
  | some m, .tryAddDevice answers deviceId => ((m.tryAddDevice answers deviceId).map Prod.snd).toOption
  | some m, .tryRemoveDevice removeDevice deviceId => some (m.tryRemoveDevice removeDevice deviceId).2

/-! ## The property -/

/-- The index that a device holds, of those for pmem devices or of the others. -/
def Device.index (isPmem : Bool) (device : Device) : Option Nat :=
  match device.config with
  | .blockCfg config => if (config.driverOption == kataNvdimmDevType) = isPmem then some config.index else none
  | .vfioCfg config => if isPmem then none else config.virtPath.map Prod.fst
  | .vhostUserBlkCfg config => if isPmem then none else some config.index

namespace SharedInfo

def counter (isPmem : Bool) (info : SharedInfo) : Nat := if isPmem then info.pmemIndex else info.blockIndex

def released (isPmem : Bool) (info : SharedInfo) : List Nat :=
  if isPmem then info.releasedPmemIndex else info.releasedBlockIndex

end SharedInfo

namespace DeviceManager

def held (isPmem : Bool) (m : DeviceManager) (deviceId : String) : Option Nat :=
  (m.devices.lookup deviceId).bind (Device.index isPmem)

/-- No index is shared, the next one that is declared is the smallest that no device holds, and no
index is skipped or lost: those below the counter are held or released. -/
structure Lowest (checks isPmem : Bool) (m : DeviceManager) : Prop where
  distinct : ∀ {d d' i}, m.held isPmem d = some i → m.held isPmem d' = some i → d = d'
  smallest : ∀ i info, m.sharedInfo.declareDeviceIndex checks isPmem = .ok (i, info) →
    (∀ d, m.held isPmem d ≠ some i) ∧ ∀ j < i, ∃ d, m.held isPmem d = some j
  accounted : ∀ i, i < m.sharedInfo.counter isPmem ↔
    i ∈ m.sharedInfo.released isPmem ∨ ∃ d, m.held isPmem d = some i
  apart : ∀ i ∈ m.sharedInfo.released isPmem, ∀ d, m.held isPmem d ≠ some i

end DeviceManager

def LowestState (checks : Bool) : Option DeviceManager → Prop
  | none => False
  | some m => m.Lowest checks false ∧ m.Lowest checks true

/-- Which kind of index a device of this configuration gets, if any. -/
def DeviceConfig.kind : DeviceConfig → Option Bool
  | .blockCfg config => (DeviceManager.blockDriver config.driverOption).map Prod.snd
  | .vfioCfg config => if config.devType = deviceTypeBlock then some false else none
  | .vhostUserBlkCfg config => (DeviceManager.vhostBlkDriver config.driverOption).map fun _ => false

/-- The path of a block device is given, or it is found. -/
def DeviceConfig.PathKnown (hostPath : Except Error String) : DeviceConfig → Prop
  | .blockCfg config => config.pathOnHost.isEmpty = true → ∃ path, hostPath = .ok path
  | _ => True

/-- Where an index is declared, none is waiting to be used again and the device is created; a device
that holds an index is not removed while it is attached more than once. -/
def Tidy : Option DeviceManager → Op → Prop
  | none, _ => True
  | some m, .newDevice random hostPath config =>
    ∀ deviceId isPmem, m.newDeviceId random = .ok deviceId → m.findDevice config.path = none →
      config.kind = some isPmem →
      m.sharedInfo.released isPmem = [] ∧ m.sharedInfo.counter isPmem + 1 < 2 ^ 64 ∧
        (isPmem = false → m.sharedInfo.counter isPmem % 2 ^ 32 < 2 ^ 31) ∧ config.PathKnown hostPath
  | some _, .tryAddDevice _ _ => True
  | some m, .tryRemoveDevice _ deviceId =>
    ∀ device isPmem i, m.devices.lookup deviceId = some device → device.index isPmem = some i → device.attachCount ≤ 1

end Kata.Hypervisor
