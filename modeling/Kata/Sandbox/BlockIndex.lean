import Kata.Lib.Ledger
import Kata.Lib.Letters
import Kata.Lib.Runs
import Mathlib.Data.Finset.Basic

/-!
# Kata.Sandbox.BlockIndex

The indexes of block devices in the Go runtime: `Attach` and `Detach` of `BlockDevice`
(`runtime/pkg/device/drivers/block.go`) with the indexes that the sandbox reserves for them
(`runtime/virtcontainers/sandbox.go`).

`Attach` reserves the lowest free index, and its deferred function gives back what `index` is at the
end. For the hypervisor `acrn` that is not what was reserved, but the number after it, and so is the
index that `Detach` gives back. An entry is `Exclusive` to its device as long as nothing is given
back there (`blockIndexes_exclusive_iff`).
-/

namespace Kata.Sandbox

open Lib

/-! ## Helpers -/

inductive HypervisorType where
  | firecracker | qemu | acrn | clh | stratovirt | dragonball | virtframework | remote | mock
deriving DecidableEq

abbrev GoError := String

/-- `intMax = ^uint(0)` -/
def intMax : Nat := 2 ^ 64 - 1

def maxDevIDSize : Nat := 31

def maxBlockIndex : Nat := 65535

def maxSCSIDevices : Nat := 65535

def getVirtDriveName (index : Int) : Except GoError String :=
  if index < 0 then .error "Index cannot be negative for drive"
  else
    let (letters, index) := letters (32 - 2) index
    if 0 ≤ index then .error "Index not supported" else .ok ("vd" ++ String.ofList letters.reverse)

def getSCSIIdLun (index : Int) : Except GoError (Int × Int) :=
  if index < 0 then .error "Index cannot be negative"
  else if index > maxSCSIDevices then
    .error s!"Index cannot be greater than {maxSCSIDevices}, maximum of {maxSCSIDevices} devices are supported"
  else .ok (index / 256, index % 256)

def getSCSIAddress (index : Int) : Except GoError String :=
  match getSCSIIdLun index with
  | .error e => .error e
  | .ok (scsiID, lun) => .ok s!"{scsiID}:{lun}"

/-- Ids are hexadecimal numbers, so that a character is a byte. -/
def makeNameID (namedType id : String) (maxLen : Nat) : String :=
  String.ofList ((s!"{namedType}-{id}").toList.take maxLen)

/-! ## Devices -/

structure DeviceInfo where
  id : String
  hostPath : String
  pmem : Bool
  readOnly : Bool
  driverOptions : Option (List (String × String))  -- may be nil

structure BlockDrive where
  file : String
  format : String
  id : String
  index : Int
  pmem : Bool
  readOnly : Bool
  scsiAddr : String
  virtPath : String

structure BlockDevice where
  deviceInfo : DeviceInfo
  attachCount : Nat
  blockDrive : Option BlockDrive

def newBlockDevice (devInfo : DeviceInfo) : BlockDevice := ⟨devInfo, 0, none⟩

/-- Whether the rest is to be skipped, and an error. -/
def bumpAttachCount (attach : Bool) (device : BlockDevice) : (Bool × Option GoError) × BlockDevice :=
  if attach then
    if device.attachCount = 0 then ((false, none), { device with attachCount := 1 })
    else if device.attachCount = intMax then ((true, some "device was attached too many times"), device)
    else ((true, none), { device with attachCount := device.attachCount + 1 })
  else
    if device.attachCount = 0 then ((true, some "detaching a device that wasn't attached"), device)
    else if device.attachCount = 1 then ((false, none), { device with attachCount := 0 })
    else ((true, none), { device with attachCount := device.attachCount - 1 })

/-- The option of the driver; that of a missing key is empty. -/
def driverOption (options : Option (List (String × String))) (key : String) : String :=
  ((options.getD []).lookup key).getD ""

/-- `globalIdx` of the drivers that name the drive in the guest. -/
def globalIdx (blockDriver : String) (index : Int) : Int :=
  if blockDriver = "virtio-blk" then index
  else if blockDriver = "virtio-blk-ccw" then index
  -- the rootfs of the VM has the first index
  else if blockDriver = "virtio-mmio" then index + 1
  else 0

def makeDrive (info : DeviceInfo) (index : Int) : Except GoError BlockDrive :=
  let drive : BlockDrive :=
    { file := info.hostPath, format := ((info.driverOptions.getD []).lookup "fstype").getD "raw",
      id := makeNameID "drive" info.id maxDevIDSize, index := index, pmem := info.pmem, readOnly := info.readOnly,
      scsiAddr := "", virtPath := "" }
  if info.driverOptions.isNone || driverOption info.driverOptions "block-driver" = "virtio-scsi" then
    match getSCSIAddress index with
    | .error e => .error e
    | .ok scsiAddr => .ok { drive with scsiAddr := scsiAddr }
  else if driverOption info.driverOptions "block-driver" ≠ "nvdimm" then
    match getVirtDriveName (globalIdx (driverOption info.driverOptions "block-driver") index) with
    | .error e => .error e
    | .ok driveName => .ok { drive with virtPath := s!"/dev/{driveName}" }
  else .ok drive

/-! ## The sandbox -/

structure Receiver where
  hypervisorType : HypervisorType
  blockIndexMap : Finset Int

/-- The first index from `i` on that is not in the map, in that many rounds. -/
def findIndex (map : Finset Int) : (rounds i : Nat) → Option Nat
  | 0, _ => none
  | rounds + 1, i => if (i : Int) ∈ map then findIndex map rounds (i + 1) else some i

def getAndSetSandboxBlockIndex (s : Receiver) : (Int × Option GoError) × Receiver :=
  match findIndex s.blockIndexMap maxBlockIndex 0 with
  | none => ((-1, some "no available block index"), s)
  | some i => ((i, none), { s with blockIndexMap := insert (i : Int) s.blockIndexMap })

/-- Its error is never set. -/
def unsetSandboxBlockIndex (s : Receiver) (index : Int) : Receiver :=
  { s with blockIndexMap := s.blockIndexMap.erase index }

/-- What `Attach` does with the index: the error, and `index` at the end. The call to the hypervisor
answers `hotplug`. -/
def plug (hotplug : Option GoError) (hypervisorType : HypervisorType) (index : Int) (device : BlockDevice) :
    Option GoError × Int × BlockDevice :=
  let index := if hypervisorType = .acrn then index + 1 else index
  match makeDrive device.deviceInfo index with
  | .error e => (some e, index, device)
  | .ok drive => (hotplug, index, { device with blockDrive := some drive })

def attach (hotplug : Option GoError) (s : Receiver) (device : BlockDevice) :
    Option GoError × Receiver × BlockDevice :=
  match bumpAttachCount true device with
  | ((_, some e), device) => (some e, s, device)
  | ((true, none), device) => (none, s, device)
  | ((false, none), device) =>
    let ((index, err), s) := getAndSetSandboxBlockIndex s
    let (err, index, device) :=
      match err with
      | some e => (some e, index, device)
      | none => plug hotplug s.hypervisorType index device
    -- the deferred function
    match err with
    | some e => (some e, unsetSandboxBlockIndex s index, (bumpAttachCount false device).2)
    | none => (none, s, device)

/-- PMEM devices cannot be hot removed. -/
def hotplugRemoveDevice (hotplug : Option GoError) (drive : BlockDrive) : Option GoError :=
  if drive.pmem then none else hotplug

/-- There is no result if the device has no drive, which is a nil pointer then. -/
def detach (hotplug : Option GoError) (s : Receiver) (device : BlockDevice) :
    Option (Option GoError × Receiver × BlockDevice) :=
  match bumpAttachCount false device with
  | ((_, some e), device) => some (some e, s, device)
  | ((true, none), device) => some (none, s, device)
  | ((false, none), device) =>
    match device.blockDrive with
    | none => none
    | some drive =>
      match hotplugRemoveDevice hotplug drive with
      | some e => some (some e, s, (bumpAttachCount true device).2)
      | none => some (none, unsetSandboxBlockIndex s drive.index, device)

/-! ## The system -/

/-- Calls on one of many devices, with the answer of the hypervisor. -/
inductive Call (ι : Type) where
  | attach (d : ι) (hotplug : Option GoError)
  | detach (d : ι) (hotplug : Option GoError)

structure State (ι : Type) where
  receiver : Receiver
  devices : ι → BlockDevice

variable {ι : Type} [DecidableEq ι]

/-- After a panic there is no state. -/
def next : Option (State ι) → Call ι → Option (State ι)
  | none, _ => none
  | some s, .attach d hotplug =>
    let (_, receiver, device) := attach hotplug s.receiver (s.devices d)
    some ⟨receiver, Function.update s.devices d device⟩
  | some s, .detach d hotplug =>
    (detach hotplug s.receiver (s.devices d)).map fun (_, receiver, device) =>
      ⟨receiver, Function.update s.devices d device⟩

def initial (hypervisorType : HypervisorType) (infos : ι → DeviceInfo) : State ι :=
  ⟨⟨hypervisorType, ∅⟩, fun d => newBlockDevice (infos d)⟩

/-! ## The property -/

def BlockDevice.Attached (device : BlockDevice) : Prop := 0 < device.attachCount

/-- How far the index of a drive is from the entry that was reserved for it. -/
def adjustment (hypervisorType : HypervisorType) : Int := if hypervisorType = .acrn then 1 else 0

structure Exclusive (s : State ι) : Prop where
  drive : ∀ d, (s.devices d).Attached → ∃ drive, (s.devices d).blockDrive = some drive
  distinct : ∀ d d' drive drive', (s.devices d).Attached → (s.devices d').Attached →
    (s.devices d).blockDrive = some drive → (s.devices d').blockDrive = some drive' →
      drive.index = drive'.index → d = d'
  reserved : ∀ i, i ∈ s.receiver.blockIndexMap ↔ ∃ d drive, (s.devices d).Attached ∧
    (s.devices d).blockDrive = some drive ∧ drive.index = i + adjustment s.receiver.hypervisorType

/-- The state is there, and the indexes are exclusive in it. -/
def ExclusiveState : Option (State ι) → Prop
  | none => False
  | some s => Exclusive s

/-- An index is reserved and given back, one too high. -/
def AttachReturns (hotplug : Option GoError) (s : Receiver) (device : BlockDevice) : Prop :=
  s.hypervisorType = .acrn ∧ device.attachCount = 0 ∧
    (∃ i < maxBlockIndex, (i : Int) ∉ s.blockIndexMap) ∧ hotplug ≠ none

/-- The index of a drive is given back, which is one too high. -/
def DetachReturns (hotplug : Option GoError) (s : Receiver) (device : BlockDevice) : Prop :=
  s.hypervisorType = .acrn ∧ device.attachCount = 1 ∧
    ∃ drive, device.blockDrive = some drive ∧ hotplugRemoveDevice hotplug drive = none

/-- For `acrn` nothing is given back: no attachment fails after an index was reserved, and no device
is removed. -/
def NoReturn : Option (State ι) → Call ι → Prop
  | none, _ => True
  | some s, .attach d hotplug => ¬ AttachReturns hotplug s.receiver (s.devices d)
  | some s, .detach d hotplug => ¬ DetachReturns hotplug s.receiver (s.devices d)

/-! ## Drives -/

section Drives

theorem getVirtDriveName_ok {index : Int} (h0 : 0 ≤ index) (hlt : index ≤ 65536) :
    ∃ name, getVirtDriveName index = .ok name := by
  have hdone := letters_done 30 (Int.lt_of_le_of_lt hlt (by decide))
  unfold getVirtDriveName
  rw [if_neg (by omega)]
  refine ⟨_, if_neg ?_⟩
  exact Int.not_le.mpr hdone

theorem getSCSIAddress_ok {index : Int} (h0 : 0 ≤ index) (hlt : index ≤ 65535) :
    ∃ addr, getSCSIAddress index = .ok addr := by
  have hidLun : getSCSIIdLun index = .ok (index / 256, index % 256) := by
    have hmax : ¬ index > (maxSCSIDevices : Int) := by
      simp only [maxSCSIDevices]
      omega
    rw [getSCSIIdLun, if_neg (by omega), if_neg hmax]
  exact ⟨_, by rw [getSCSIAddress, hidLun]⟩

/-- Every index that can be reserved has a drive. -/
theorem makeDrive_ok (info : DeviceInfo) {index : Int} (h0 : 0 ≤ index) (hlt : index ≤ 65535) :
    ∃ drive, makeDrive info index = .ok drive ∧ drive.index = index := by
  obtain ⟨addr, haddr⟩ := getSCSIAddress_ok h0 hlt
  have hglobal : ∀ driver, 0 ≤ globalIdx driver index ∧ globalIdx driver index ≤ 65536 := by
    intro driver
    unfold globalIdx
    split
    · omega
    · split
      · omega
      · split
        · omega
        · omega
  unfold makeDrive
  dsimp only
  split
  · exact ⟨_, by rw [haddr], rfl⟩
  · split
    · obtain ⟨h1, h2⟩ := hglobal (driverOption info.driverOptions "block-driver")
      obtain ⟨name, hname⟩ := getVirtDriveName_ok h1 h2
      exact ⟨_, by rw [hname], rfl⟩
    · exact ⟨_, rfl, rfl⟩

end Drives

/-! ## Entries -/

section Entries

/-- The entry that was reserved for a device. -/
def entry (hypervisorType : HypervisorType) (device : BlockDevice) : Option Int :=
  if device.attachCount = 0 then none else device.blockDrive.map fun drive => drive.index - adjustment hypervisorType

def HasDrive (device : BlockDevice) : Prop := device.Attached → ∃ drive, device.blockDrive = some drive

variable {hypervisorType : HypervisorType} {device device' : BlockDevice} {i : Int}

theorem entry_detached (h : device.attachCount = 0) : entry hypervisorType device = none := if_pos h

theorem entry_attached (h : device.attachCount ≠ 0) : entry hypervisorType device =
    device.blockDrive.map fun drive => drive.index - adjustment hypervisorType := if_neg h

theorem attached_of_one (h : device.attachCount = 1) : device.Attached := Nat.lt_of_lt_of_eq Nat.one_pos h.symm

theorem hasDrive_detached (h : device.attachCount = 0) : HasDrive device :=
  fun ha => absurd h (Nat.ne_of_gt ha)

theorem entry_eq_some : entry hypervisorType device = some i ↔
    ∃ drive, device.Attached ∧ device.blockDrive = some drive ∧ drive.index = i + adjustment hypervisorType := by
  by_cases h : device.attachCount = 0
  · rw [entry_detached h]
    refine ⟨nofun, ?_⟩
    rintro ⟨_, ha, _⟩
    exact absurd h (Nat.ne_of_gt ha)
  · rw [entry_attached h, Option.map_eq_some_iff]
    constructor
    · rintro ⟨drive, hdrive, hi⟩
      exact ⟨drive, Nat.pos_of_ne_zero h, hdrive, by omega⟩
    · rintro ⟨drive, _, hdrive, hi⟩
      exact ⟨drive, hdrive, by omega⟩

end Entries

def owner (s : State ι) (d : ι) : Option Int := entry s.receiver.hypervisorType (s.devices d)

omit [DecidableEq ι] in
theorem exclusive_iff {s : State ι} :
    Exclusive s ↔ (∀ d, HasDrive (s.devices d)) ∧ Ledger (s.receiver.blockIndexMap : Set Int) (owner s) := by
  constructor
  · intro h
    refine ⟨h.drive, ?_, ?_⟩
    · intro d d' i hd hd'
      obtain ⟨drive, ha, hdrive, hi⟩ := entry_eq_some.mp hd
      obtain ⟨drive', ha', hdrive', hi'⟩ := entry_eq_some.mp hd'
      exact h.distinct d d' drive drive' ha ha' hdrive hdrive' (hi.trans hi'.symm)
    · intro i
      rw [Finset.mem_coe, h.reserved]
      exact exists_congr fun d => entry_eq_some.symm
  · rintro ⟨hdrive, hledger⟩
    refine ⟨hdrive, ?_, ?_⟩
    · intro d d' drive drive' ha ha' hd hd' hindex
      have hi : owner s d = some (drive.index - adjustment s.receiver.hypervisorType) :=
        entry_eq_some.mpr ⟨drive, ha, hd, (Int.sub_add_cancel _ _).symm⟩
      have hi' : owner s d' = some (drive.index - adjustment s.receiver.hypervisorType) :=
        entry_eq_some.mpr ⟨drive', ha', hd', hindex ▸ (Int.sub_add_cancel _ _).symm⟩
      exact hledger.single hi hi'
    · intro i
      rw [← Finset.mem_coe, hledger.taken_iff]
      exact exists_congr fun d => entry_eq_some

/-! ## What a call does -/

/-- The entry of the device is kept, reserved or given back. -/
inductive Effect (s : Receiver) (device : BlockDevice) : Receiver → BlockDevice → Prop where
  | keep {device'} : entry s.hypervisorType device' = entry s.hypervisorType device → Effect s device s device'
  | take {device' i} : i ∉ s.blockIndexMap → entry s.hypervisorType device = none →
      entry s.hypervisorType device' = some i →
      Effect s device { s with blockIndexMap := insert i s.blockIndexMap } device'
  | release {device' i} : entry s.hypervisorType device = some i → entry s.hypervisorType device' = none →
      Effect s device { s with blockIndexMap := s.blockIndexMap.erase i } device'

theorem Effect.hypervisorType {s s' : Receiver} {device device' : BlockDevice} (h : Effect s device s' device') :
    s'.hypervisorType = s.hypervisorType := by
  cases h with
  | keep | take | release => rfl

/-- An entry stays that no device has. -/
structure Leak (s : Receiver) (device : BlockDevice) (s' : Receiver) (device' : BlockDevice) : Prop where
  hypervisorType : s'.hypervisorType = s.hypervisorType
  gone : entry s.hypervisorType device' = none
  stays : ∃ i ∈ s'.blockIndexMap, entry s.hypervisorType device = some i ∨ i ∉ s.blockIndexMap

section Calls

variable {s : Receiver} {device : BlockDevice} (hotplug : Option GoError)

theorem findIndex_none (rounds : Nat) {i : Nat} {map : Finset Int} (h : findIndex map rounds i = none) :
    ∀ j, i ≤ j → j < i + rounds → (j : Int) ∈ map := by
  induction rounds generalizing i with
  | zero =>
    intro j hle hlt
    omega
  | succ n ih =>
    rw [findIndex] at h
    split at h
    · rename_i hmem
      intro j hle hlt
      by_cases heq : j = i
      · rw [heq]
        exact hmem
      · exact ih h j (by omega) (by omega)
    · cases h

theorem findIndex_some (rounds : Nat) {i j : Nat} {map : Finset Int} (h : findIndex map rounds i = some j) :
    j < i + rounds ∧ (j : Int) ∉ map := by
  induction rounds generalizing i with
  | zero => cases h
  | succ n ih =>
    rw [findIndex] at h
    split at h
    · obtain ⟨hlt, hmem⟩ := ih h
      exact ⟨by omega, hmem⟩
    · rename_i hmem
      cases h
      exact ⟨by omega, hmem⟩

/-- More than one attachment is only counted. -/
theorem attach_again (h : device.attachCount ≠ 0) :
    ∃ err count, count ≠ 0 ∧ attach hotplug s device = (err, s, { device with attachCount := count }) := by
  by_cases hmax : device.attachCount = intMax
  · refine ⟨some "device was attached too many times", device.attachCount, h, ?_⟩
    rw [attach, bumpAttachCount, if_pos rfl, if_neg h, if_pos hmax]
  · refine ⟨none, device.attachCount + 1, Nat.succ_ne_zero _, ?_⟩
    rw [attach, bumpAttachCount, if_pos rfl, if_neg h, if_neg hmax]

/-- No index is free: the deferred function gives back -1. -/
theorem attach_full (h : device.attachCount = 0) (hfull : findIndex s.blockIndexMap maxBlockIndex 0 = none) :
    attach hotplug s device =
      (some "no available block index", unsetSandboxBlockIndex s (-1), { device with attachCount := 0 }) := by
  rw [attach, bumpAttachCount, if_pos rfl, if_pos h]
  simp only [getAndSetSandboxBlockIndex, hfull]
  rfl

theorem attach_free {i : Nat} (h : device.attachCount = 0)
    (hfree : findIndex s.blockIndexMap maxBlockIndex 0 = some i) :
    ∃ drive, drive.index = i + adjustment s.hypervisorType ∧ attach hotplug s device =
      match hotplug with
      | some e => (some e, { s with blockIndexMap := (insert (i : Int) s.blockIndexMap).erase drive.index },
          { device with attachCount := 0, blockDrive := some drive })
      | none => (none, { s with blockIndexMap := insert (i : Int) s.blockIndexMap },
          { device with attachCount := 1, blockDrive := some drive }) := by
  have hlt : i < 65535 := by simpa [maxBlockIndex] using (findIndex_some _ hfree).1
  have hindex : (if s.hypervisorType = .acrn then (i : Int) + 1 else i) = i + adjustment s.hypervisorType := by
    unfold adjustment
    split
    · rfl
    · exact (Int.add_zero _).symm
  have hadj : 0 ≤ adjustment s.hypervisorType ∧ adjustment s.hypervisorType ≤ 1 := by
    unfold adjustment
    split
    · exact ⟨by decide, by decide⟩
    · exact ⟨by decide, by decide⟩
  obtain ⟨drive, hdrive, hi⟩ := makeDrive_ok device.deviceInfo
    (by omega : 0 ≤ (i : Int) + adjustment s.hypervisorType) (by omega)
  refine ⟨drive, hi, ?_⟩
  rw [attach, bumpAttachCount, if_pos rfl, if_pos h]
  simp only [getAndSetSandboxBlockIndex, hfree, plug, hindex, hdrive]
  cases hotplug with
  | none => rfl
  | some e =>
    rw [← hi]
    rfl

theorem detach_idle (h : device.attachCount ≠ 1) : ∃ err count, (count = 0 ↔ device.attachCount = 0) ∧
    detach hotplug s device = some (err, s, { device with attachCount := count }) := by
  by_cases h0 : device.attachCount = 0
  · refine ⟨some "detaching a device that wasn't attached", device.attachCount, Iff.rfl, ?_⟩
    rw [detach, bumpAttachCount, if_neg (by decide), if_pos h0]
  · refine ⟨none, device.attachCount - 1, by omega, ?_⟩
    rw [detach, bumpAttachCount, if_neg (by decide), if_neg h0, if_neg h]

theorem detach_last {drive : BlockDrive} (h : device.attachCount = 1) (hdrive : device.blockDrive = some drive) :
    detach hotplug s device =
      match hotplugRemoveDevice hotplug drive with
      | some e => some (some e, s, { device with attachCount := 1 })
      | none => some (none, unsetSandboxBlockIndex s drive.index, { device with attachCount := 0 }) := by
  have h0 : device.attachCount ≠ 0 := by
    rw [h]
    decide
  rw [detach, bumpAttachCount, if_neg (by decide), if_neg h0, if_pos h]
  simp only [hdrive]
  cases hotplugRemoveDevice hotplug drive with
  | none | some e => rfl

theorem attach_effect (hreserved : (-1 : Int) ∉ s.blockIndexMap) (h : ¬ AttachReturns hotplug s device) :
    Effect s device (attach hotplug s device).2.1 (attach hotplug s device).2.2 := by
  by_cases h0 : device.attachCount = 0
  · cases hfind : findIndex s.blockIndexMap maxBlockIndex 0 with
    | none =>
      rw [attach_full hotplug h0 hfind, unsetSandboxBlockIndex, Finset.erase_eq_of_notMem hreserved]
      exact .keep ((entry_detached rfl).trans (entry_detached h0).symm)
    | some i =>
      obtain ⟨hlt, hfree⟩ := findIndex_some _ hfind
      obtain ⟨drive, hindex, heq⟩ := attach_free hotplug h0 hfind
      cases hotplug with
      | none =>
        rw [heq]
        exact .take hfree (entry_detached h0) (entry_eq_some.mpr ⟨drive, Nat.one_pos, rfl, hindex⟩)
      | some e =>
        -- only what was reserved is given back
        have hacrn : s.hypervisorType ≠ .acrn := fun hacrn => h ⟨hacrn, h0, ⟨i, by omega, hfree⟩, nofun⟩
        rw [adjustment, if_neg hacrn, Int.add_zero] at hindex
        rw [heq]
        simp only [hindex, Finset.erase_insert hfree]
        exact .keep ((entry_detached rfl).trans (entry_detached h0).symm)
  · obtain ⟨err, count, hcount, heq⟩ := attach_again hotplug h0
    rw [heq]
    exact .keep ((entry_attached hcount).trans (entry_attached h0).symm)

theorem attach_leak (h : AttachReturns hotplug s device) :
    Leak s device (attach hotplug s device).2.1 (attach hotplug s device).2.2 := by
  obtain ⟨hacrn, h0, ⟨j, hj, hjfree⟩, hfails⟩ := h
  cases hfind : findIndex s.blockIndexMap maxBlockIndex 0 with
  | none => exact absurd (findIndex_none _ hfind j (Nat.zero_le _) (by omega)) hjfree
  | some i =>
    obtain ⟨_, hfree⟩ := findIndex_some _ hfind
    obtain ⟨drive, hindex, heq⟩ := attach_free hotplug h0 hfind
    rw [adjustment, if_pos hacrn] at hindex
    cases hotplug with
    | none => exact absurd rfl hfails
    | some e =>
      rw [heq]
      refine ⟨rfl, entry_detached rfl, i, ?_, .inr hfree⟩
      exact Finset.mem_erase.mpr ⟨by omega, Finset.mem_insert_self _ _⟩

theorem attach_hasDrive (h : HasDrive device) : HasDrive (attach hotplug s device).2.2 := by
  by_cases h0 : device.attachCount = 0
  · cases hfind : findIndex s.blockIndexMap maxBlockIndex 0 with
    | none =>
      rw [attach_full hotplug h0 hfind]
      exact hasDrive_detached rfl
    | some i =>
      obtain ⟨drive, _, heq⟩ := attach_free hotplug h0 hfind
      rw [heq]
      cases hotplug with
      | none => exact fun _ => ⟨drive, rfl⟩
      | some e => exact hasDrive_detached rfl
  · obtain ⟨err, count, _, heq⟩ := attach_again hotplug h0
    rw [heq]
    exact fun _ => h (Nat.pos_of_ne_zero h0)

theorem detach_effect (hdrive : HasDrive device) (h : ¬ DetachReturns hotplug s device) :
    ∃ err s' device', detach hotplug s device = some (err, s', device') ∧ HasDrive device' ∧
      Effect s device s' device' := by
  by_cases h1 : device.attachCount = 1
  · obtain ⟨drive, hd⟩ := hdrive (attached_of_one h1)
    have hne : device.attachCount ≠ 0 := h1 ▸ Nat.one_ne_zero
    rw [detach_last hotplug h1 hd]
    cases hremove : hotplugRemoveDevice hotplug drive with
    | none =>
      have hacrn : s.hypervisorType ≠ .acrn := fun hacrn => h ⟨hacrn, h1, drive, hd, hremove⟩
      refine ⟨_, _, _, rfl, hasDrive_detached rfl, .release ?_ (entry_detached rfl)⟩
      refine entry_eq_some.mpr ⟨drive, attached_of_one h1, hd, ?_⟩
      rw [adjustment, if_neg hacrn, Int.add_zero]
    | some e =>
      refine ⟨_, _, _, rfl, fun _ => ⟨drive, hd⟩, .keep ?_⟩
      exact (entry_attached Nat.one_ne_zero).trans (entry_attached hne).symm
  · obtain ⟨err, count, hcount, heq⟩ := detach_idle hotplug h1
    refine ⟨_, _, _, heq, ?_, .keep ?_⟩
    · intro ha
      exact hdrive (Nat.pos_of_ne_zero (mt hcount.mpr (Nat.ne_of_gt ha)))
    · unfold entry
      simp only [hcount]

theorem detach_leak (hmem : ∀ i, entry s.hypervisorType device = some i → i ∈ s.blockIndexMap)
    (h : DetachReturns hotplug s device) :
    ∃ err s' device', detach hotplug s device = some (err, s', device') ∧ Leak s device s' device' := by
  obtain ⟨hacrn, h1, drive, hd, hremove⟩ := h
  have hentry : entry s.hypervisorType device = some (drive.index - 1) := by
    refine entry_eq_some.mpr ⟨drive, attached_of_one h1, hd, ?_⟩
    rw [adjustment, if_pos hacrn, Int.sub_add_cancel]
  rw [detach_last hotplug h1 hd, hremove]
  refine ⟨_, _, _, rfl, rfl, entry_detached rfl, drive.index - 1, ?_, .inl hentry⟩
  exact Finset.mem_erase.mpr ⟨by omega, hmem _ hentry⟩

/-- The -1 of a failed search is never an entry. -/
theorem attach_reservable (h : (-1 : Int) ∉ s.blockIndexMap) :
    (-1 : Int) ∉ (attach hotplug s device).2.1.blockIndexMap := by
  by_cases h0 : device.attachCount = 0
  · cases hfind : findIndex s.blockIndexMap maxBlockIndex 0 with
    | none =>
      rw [attach_full hotplug h0 hfind]
      exact Finset.notMem_erase _ _
    | some i =>
      have hinsert : (-1 : Int) ∉ insert (i : Int) s.blockIndexMap := by
        rw [Finset.mem_insert]
        rintro (heq | hmem)
        · omega
        · exact h hmem
      obtain ⟨drive, _, heq⟩ := attach_free hotplug h0 hfind
      rw [heq]
      cases hotplug with
      | none => exact hinsert
      | some e => exact fun hmem => hinsert (Finset.mem_of_mem_erase hmem)
  · obtain ⟨err, count, _, heq⟩ := attach_again hotplug h0
    rw [heq]
    exact h

theorem detach_reservable {err : Option GoError} {s' : Receiver} {device' : BlockDevice}
    (h : (-1 : Int) ∉ s.blockIndexMap) (heq : detach hotplug s device = some (err, s', device')) :
    (-1 : Int) ∉ s'.blockIndexMap := by
  by_cases h1 : device.attachCount = 1
  · cases hd : device.blockDrive with
    | none =>
      have h0 : device.attachCount ≠ 0 := h1 ▸ Nat.one_ne_zero
      rw [detach, bumpAttachCount, if_neg (by decide), if_neg h0, if_pos h1] at heq
      simp only [hd] at heq
      cases heq
    | some drive =>
      rw [detach_last hotplug h1 hd] at heq
      cases hremove : hotplugRemoveDevice hotplug drive with
      | none =>
        rw [hremove] at heq
        cases heq
        exact fun hmem => h (Finset.mem_of_mem_erase hmem)
      | some e =>
        rw [hremove] at heq
        cases heq
        exact h
  · obtain ⟨err', count, _, heq'⟩ := detach_idle hotplug h1
    rw [heq'] at heq
    cases heq
    exact h

end Calls

/-! ## Runs -/

section Runs

variable {s : State ι} {d : ι} {receiver : Receiver} {device : BlockDevice}

theorem owner_update (receiver : Receiver) (h : receiver.hypervisorType = s.receiver.hypervisorType) :
    owner ⟨receiver, Function.update s.devices d device⟩ =
      Function.update (owner s) d (entry s.receiver.hypervisorType device) := by
  funext d'
  simp only [owner, h]
  by_cases heq : d' = d
  · rw [heq, Function.update_self, Function.update_self]
  · rw [Function.update_of_ne heq, Function.update_of_ne heq, owner]

theorem exclusive_of_effect (h : Exclusive s) (hdrive : HasDrive device)
    (he : Effect s.receiver (s.devices d) receiver device) :
    Exclusive ⟨receiver, Function.update s.devices d device⟩ := by
  obtain ⟨hdrives, hledger⟩ := exclusive_iff.mp h
  refine exclusive_iff.mpr ⟨?_, ?_⟩
  · intro d'
    dsimp only
    by_cases heq : d' = d
    · rw [heq, Function.update_self]
      exact hdrive
    · rw [Function.update_of_ne heq]
      exact hdrives d'
  · rw [owner_update receiver he.hypervisorType]
    cases he with
    | keep hentry => exact hledger.keep hentry.symm
    | take hfree hnone hsome =>
      rw [hsome, Finset.coe_insert]
      exact hledger.take hnone hfree
    | release hsome hnone =>
      rw [hnone, Finset.coe_erase]
      exact hledger.release hsome

theorem not_exclusive_of_leak (h : Exclusive s) (hl : Leak s.receiver (s.devices d) receiver device) :
    ¬ Exclusive ⟨receiver, Function.update s.devices d device⟩ := by
  obtain ⟨i, hi, hgone⟩ := hl.stays
  intro h'
  have hledger := (exclusive_iff.mp h').2
  rw [owner_update receiver hl.hypervisorType, hl.gone] at hledger
  exact (exclusive_iff.mp h).2.not_of_leak hi hgone hledger

/-- The -1 of a failed search is no entry. -/
def Reservable : Option (State ι) → Prop
  | none => True
  | some s => (-1 : Int) ∉ s.receiver.blockIndexMap

theorem next_reservable (s : Option (State ι)) (c : Call ι) (h : Reservable s) : Reservable (next s c) := by
  cases s with
  | none => trivial
  | some s =>
    cases c with
    | attach d hotplug => exact attach_reservable hotplug h
    | detach d hotplug =>
      rw [next]
      cases heq : detach hotplug s.receiver (s.devices d) with
      | none => trivial
      | some r => exact detach_reservable hotplug h heq

theorem next_exclusive_iff (s : Option (State ι)) (c : Call ι) (hr : Reservable s) (h : ExclusiveState s) :
    ExclusiveState (next s c) ↔ NoReturn s c := by
  cases s with
  | none => exact h.elim
  | some s =>
    have hdrives := (exclusive_iff.mp h).1
    cases c with
    | attach d hotplug =>
      by_cases hreturns : AttachReturns hotplug s.receiver (s.devices d)
      · have hnot := not_exclusive_of_leak h (attach_leak hotplug hreturns)
        exact ⟨fun hex => absurd hex hnot, fun hno => absurd hreturns hno⟩
      · have hex := exclusive_of_effect h (attach_hasDrive hotplug (hdrives d)) (attach_effect hotplug hr hreturns)
        exact ⟨fun _ => hreturns, fun _ => hex⟩
    | detach d hotplug =>
      by_cases hreturns : DetachReturns hotplug s.receiver (s.devices d)
      · have hmem : ∀ i, owner s d = some i → i ∈ s.receiver.blockIndexMap := fun i hi =>
          ((exclusive_iff.mp h).2.taken_iff i).mpr ⟨d, hi⟩
        obtain ⟨err, s', device', heq, hleak⟩ := detach_leak hotplug hmem hreturns
        rw [next, heq]
        exact ⟨fun hex => absurd hex (not_exclusive_of_leak h hleak), fun hno => absurd hreturns hno⟩
      · obtain ⟨err, s', device', heq, hdrive, heffect⟩ := detach_effect hotplug (hdrives d) hreturns
        rw [next, heq]
        exact ⟨fun _ => hreturns, fun _ => exclusive_of_effect h hdrive heffect⟩

omit [DecidableEq ι] in
theorem exclusive_initial (hypervisorType : HypervisorType) (infos : ι → DeviceInfo) :
    Exclusive (initial hypervisorType infos) := by
  refine exclusive_iff.mpr ⟨fun d => hasDrive_detached rfl, ?_⟩
  have howner : owner (initial hypervisorType infos) = fun _ => none := funext fun d => entry_detached rfl
  rw [howner]
  exact Finset.coe_empty ▸ Ledger.empty

theorem blockIndexes_exclusive_iff (hypervisorType : HypervisorType) (infos : ι → DeviceInfo)
    (calls : List (Call ι)) :
    Always next ExclusiveState (some (initial hypervisorType infos)) calls ↔
      Throughout next NoReturn (some (initial hypervisorType infos)) calls := by
  have hr : Reservable (some (initial hypervisorType infos)) := Finset.notMem_empty (-1 : Int)
  exact always_iff next_reservable next_exclusive_iff hr (exclusive_initial hypervisorType infos) calls

/-- Two devices; `false` is detached and attached again while `true` is attached. -/
def acrnCalls : List (Call Bool) := [.attach false none, .attach true none, .detach false none, .attach false none]

def acrnSandbox : State Bool := initial .acrn fun _ => ⟨"d", "/dev/sdb", false, false, none⟩

/-- Both devices have the index 2 in the end. -/
theorem acrn_index_shared :
    ((acrnCalls.foldl next (some acrnSandbox)).map fun s =>
      [false, true].map fun d => ((s.devices d).attachCount, (s.devices d).blockDrive.map BlockDrive.index)) =
        some [(1, some 2), (1, some 2)] ∧
      ¬ Always next ExclusiveState (some acrnSandbox) acrnCalls := by
  refine ⟨by decide, ?_⟩
  intro h
  have hr : Reservable (some acrnSandbox) := Finset.notMem_empty (-1 : Int)
  -- the third call gives back the entry of the second device
  obtain ⟨_, _, hdetach, _⟩ := (always_iff next_reservable next_exclusive_iff hr
    (exclusive_initial _ _) acrnCalls).mp h
  exact hdetach ⟨rfl, rfl, _, rfl, rfl⟩

end Runs

end Kata.Sandbox
