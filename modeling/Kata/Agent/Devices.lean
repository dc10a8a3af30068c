import Kata.Oci.Spec

/-!
# Kata.Agent.Devices

How the devices of a container get into its specification (`agent/src/device.rs`): `add_devices`
asks the handler of each device for the guest's type and numbers, inserts a device rule for it, and
at the end `update_spec_devices` replaces the host's numbers in the devices and in the rules of the
specification by the guest's.

A `HashMap` is a list of pairs with different keys. The handlers talk to the guest's kernel, so what
they return is part of the input, as is `update_env_pci`, which changes the environment of the
process only.
-/

namespace Kata.Agent

open Oci

structure Device where
  id : String
  type : String
  vmPath : String
  containerPath : String
deriving DecidableEq, Repr

structure DeviceInfo where
  cgroupType : String
  guestMajor : Int64
  guestMinor : Int64
deriving DecidableEq

structure DevUpdate where
  info : DeviceInfo
  finalPath : Option String := none
deriving DecidableEq

structure SpecUpdate (Address : Type) where
  dev : Option DevUpdate := none
  pci : List (Address × Address) := []

inductive DeviceError (Address : Type) where
  | invalidType (device : Device)
  | invalidIdAndVmPath (device : Device)
  | invalidContainerPath (device : Device)
  | unknownDeviceType (type : String)
  | handler (e : String)
  | conflictingDeviceUpdates (containerPath : String)
  | conflictingGuestAddress (host guest otherGuest : Address)
  | noLinuxField
  | conflictingResourceUpdates (hostMajor hostMinor : Int64)
  | missingDevices (paths : List String)
  | envPci (e : String)

variable {Address : Type}

/-! ## One device -/

def driverTypes : List String :=
  ["blk", "blk-ccw", "mmioblk", "nvdimm", "scsi", "vfio-pci-gk", "vfio-pci", "vfio-ap"]

/-- `outcome` is what the handler of the device's type returns. -/
def addDevice (device : Device) (outcome : Except String (SpecUpdate Address)) :
    Except (DeviceError Address) (SpecUpdate Address) :=
  if device.type = "" then .error (.invalidType device)
  else if device.id = "" ∧ device.vmPath = "" then .error (.invalidIdAndVmPath device)
  else if device.containerPath = "" then .error (.invalidContainerPath device)
  else if device.type ∈ driverTypes then outcome.mapError .handler
  else .error (.unknownDeviceType device.type)

def insertDevicesCgroupRule (spec : Spec) (devInfo : DeviceInfo) (allow : Bool) (access : String) :
    Except (DeviceError Address) Spec :=
  match spec.linux with
  | none => .error .noLinuxField
  | some linux =>
    let resources := linux.resources.getD {}
    let cgroup : LinuxDeviceCgroup :=
      { allow := allow
        major := some devInfo.guestMajor
        minor := some devInfo.guestMinor
        type := devInfo.cgroupType
        access := access }
    .ok { spec with linux := some { linux with
      resources := some { resources with devices := resources.devices ++ [cgroup] } } }

variable [DecidableEq Address]

/-- Enter the corrected addresses of a device, unless one of them is there already. -/
def recordPci (pcimap : List (Address × Address)) :
    List (Address × Address) → Except (DeviceError Address) (List (Address × Address))
  | [] => .ok pcimap
  | (host, guest) :: rest =>
    match pcimap.lookup host with
    | some otherGuest => .error (.conflictingGuestAddress host guest otherGuest)
    | none => recordPci (pcimap ++ [(host, guest)]) rest

structure Progress (Address : Type) where
  spec : Spec
  devUpdates : List (String × DevUpdate)
  pcimap : List (Address × Address)

/-- The device is entered in the updates, its addresses in the map, and a rule for it in the
specification. -/
def enterDevice (st : Progress Address) (containerPath : String) (devUpdate : DevUpdate)
    (pci : List (Address × Address)) : Except (DeviceError Address) (Progress Address) :=
  match st.devUpdates.lookup containerPath with
  | some _ => .error (.conflictingDeviceUpdates containerPath)
  | none => do
    let pcimap ← recordPci st.pcimap pci
    let spec ← insertDevicesCgroupRule st.spec devUpdate.info true "rwm"
    .ok { spec := spec, devUpdates := st.devUpdates ++ [(containerPath, devUpdate)], pcimap := pcimap }

def addOne (st : Progress Address) (device : Device) (outcome : Except String (SpecUpdate Address)) :
    Except (DeviceError Address) (Progress Address) := do
  let update ← addDevice device outcome
  match update.dev with
  | none => .ok st
  | some devUpdate => enterDevice st device.containerPath devUpdate update.pci

def addAll (st : Progress Address) :
    List (Device × Except String (SpecUpdate Address)) → Except (DeviceError Address) (Progress Address)
  | [] => .ok st
  | (device, outcome) :: rest => do
    let st ← addOne st device outcome
    addAll st rest

/-! ## The specification -/

abbrev HostKey := String × Int64 × Int64

def LinuxDevice.hostKey (d : LinuxDevice) : HostKey := (d.type, d.major, d.minor)

def updateDevice (specdev : LinuxDevice) (update : DevUpdate) : LinuxDevice :=
  { specdev with
    major := update.info.guestMajor
    minor := update.info.guestMinor
    path := update.finalPath.getD specdev.path }

/-- The loop over the devices: the devices as they become, the updates not yet used, and for each
device that was updated the guest's numbers under the host's. -/
def updateDevices : List LinuxDevice → List (String × DevUpdate) → List (HostKey × DeviceInfo) →
    Except (DeviceError Address) (List LinuxDevice × List (String × DevUpdate) × List (HostKey × DeviceInfo))
  | [], updates, resUpdates => .ok ([], updates, resUpdates)
  | specdev :: rest, updates, resUpdates =>
    match updates.lookup specdev.path with
    | none => do
      let (devices, updates, resUpdates) ← updateDevices rest updates resUpdates
      .ok (specdev :: devices, updates, resUpdates)
    | some update =>
      match resUpdates.lookup (LinuxDevice.hostKey specdev) with
      | some _ => .error (.conflictingResourceUpdates specdev.major specdev.minor)
      | none => do
        let (devices, updates, resUpdates) ← updateDevices rest (updates.filter (·.1 ≠ specdev.path))
          ((LinuxDevice.hostKey specdev, update.info) :: resUpdates)
        .ok (updateDevice specdev update :: devices, updates, resUpdates)

def updateRule (resUpdates : List (HostKey × DeviceInfo)) (r : LinuxDeviceCgroup) : LinuxDeviceCgroup :=
  match r.major, r.minor with
  | some hostMajor, some hostMinor =>
    match resUpdates.lookup (r.type, hostMajor, hostMinor) with
    | some update => { r with major := some update.guestMajor, minor := some update.guestMinor }
    | none => r
  | _, _ => r

def updateSpecDevices (spec : Spec) (updates : List (String × DevUpdate)) : Except (DeviceError Address) Spec :=
  match spec.linux with
  | none => .error .noLinuxField
  | some linux => do
    let (devices, updates, resUpdates) ← updateDevices linux.devices updates []
    if updates = [] then
      .ok { spec with linux := some { linux with
        devices := devices
        resources := linux.resources.map fun r => { r with devices := r.devices.map (updateRule resUpdates) } } }
    else .error (.missingDevices (updates.map (·.1)))

/-! ## All of it -/

def updateProcess (updateEnvPci : List String → List (Address × Address) → Except String (List String))
    (spec : Spec) (pcimap : List (Address × Address)) : Except (DeviceError Address) Spec :=
  match spec.process with
  | none => .ok spec
  | some process =>
    match updateEnvPci process.env pcimap with
    | .error e => .error (.envPci e)
    | .ok env => .ok { spec with process := some { process with env := env } }

def addDevices (updateEnvPci : List String → List (Address × Address) → Except String (List String))
    (devices : List (Device × Except String (SpecUpdate Address))) (spec : Spec) (pcimap : List (Address × Address)) :
    Except (DeviceError Address) Spec := do
  let st ← addAll { spec := spec, devUpdates := [], pcimap := pcimap } devices
  let spec ← updateProcess updateEnvPci st.spec st.pcimap
  updateSpecDevices spec st.devUpdates

end Kata.Agent
