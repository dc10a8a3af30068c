import Kata.Hypervisor.DeviceManager
import Kata.Lib.Dict
import Kata.Lib.Outcome

/-!
# Kata.Hypervisor.DeviceIndex

Which operations of the device manager keep its indexes tight.

A released index is declared again before a new one, but the counter advances then too, and the
index that it was at is never declared. An index is also lost if the device cannot be created after
it was declared, and with a device that is removed while it is attached more than once.
`indexes_lowest_iff` says that there is nothing else.
-/

namespace Kata.Hypervisor

open Lib

/-! ## Shared info -/

namespace SharedInfo

variable {checks isPmem : Bool} {info info' : SharedInfo} {i : Nat}

/-- What a declaration of an index does. -/
structure Declared (isPmem : Bool) (info : SharedInfo) (i : Nat) (info' : SharedInfo) : Prop where
  index : i = (info.released isPmem).getLast?.getD (info.counter isPmem)
  released : info'.released isPmem = (info.released isPmem).dropLast
  counter : info'.counter isPmem = if info.counter isPmem + 1 < 2 ^ 64 then info.counter isPmem + 1 else 0
  otherCounter : info'.counter (!isPmem) = info.counter (!isPmem)
  otherReleased : info'.released (!isPmem) = info.released (!isPmem)

theorem declareIndex_eq (checks : Bool) (index : Nat) (released : List Nat) : declareIndex checks index released =
    if index + 1 < 2 ^ 64 then .ok (released.getLast?.getD index, index + 1, released.dropLast)
    else if checks then .error .overflow
    else .ok (released.getLast?.getD index, 0, released.dropLast) := by
  unfold declareIndex
  cases h : released.getLast? with
  | none =>
    rw [List.getLast?_eq_none_iff.mp h]
    rfl
  | some i => rfl

theorem declareIndex_ok {index index' : Nat} {released released' : List Nat}
    (h : declareIndex checks index released = .ok (i, index', released')) :
    i = released.getLast?.getD index ∧ released' = released.dropLast ∧
      index' = if index + 1 < 2 ^ 64 then index + 1 else 0 := by
  rw [declareIndex_eq] at h
  by_cases hlt : index + 1 < 2 ^ 64
  · rw [if_pos hlt] at h
    cases h
    exact ⟨rfl, rfl, (if_pos hlt).symm⟩
  · rw [if_neg hlt] at h
    cases checks with
    | true => cases h
    | false =>
      cases h
      exact ⟨rfl, rfl, (if_neg hlt).symm⟩

theorem Declared.index_of_nil (h : Declared isPmem info i info') (hnil : info.released isPmem = []) :
    i = info.counter isPmem := by rw [h.index, hnil, List.getLast?_nil, Option.getD_none]

theorem declareDeviceIndex_ok (h : info.declareDeviceIndex checks isPmem = .ok (i, info')) :
    Declared isPmem info i info' := by
  cases isPmem with
  | false | true =>
    obtain ⟨r, hd, heq⟩ := bind_eq_ok.mp h
    cases heq
    obtain ⟨hi, hreleased, hcounter⟩ := declareIndex_ok hd
    exact ⟨hi, hreleased, hcounter, rfl, rfl⟩

theorem declareDeviceIndex_of_lt (checks : Bool) (h : info.counter isPmem + 1 < 2 ^ 64) :
    ∃ i info', info.declareDeviceIndex checks isPmem = .ok (i, info') := by
  have hd := (declareIndex_eq checks _ (info.released isPmem)).trans (if_pos h)
  cases isPmem with
  | false | true => exact ⟨_, _, congrArg (· >>= _) hd⟩

theorem counter_release (i : Nat) (k isPmem : Bool) :
    (info.releaseDeviceIndex i k).counter isPmem = info.counter isPmem := by
  cases k <;> cases isPmem <;> rfl

theorem released_release_self (i : Nat) (k : Bool) :
    (info.releaseDeviceIndex i k).released k = releaseIndex i (info.released k) := by
  cases k <;> rfl

theorem released_release_other (i : Nat) (k : Bool) :
    (info.releaseDeviceIndex i k).released (!k) = info.released (!k) := by
  cases k <;> rfl

end SharedInfo

theorem mem_releaseIndex {i j : Nat} {released : List Nat} : j ∈ releaseIndex i released ↔ j ∈ released ∨ j = i := by
  rw [releaseIndex, List.mem_insertionSort, List.mem_append, List.mem_singleton]

theorem sorted_releaseIndex {i : Nat} {released : List Nat} (h : released.Pairwise (· > ·)) (hi : i ∉ released) :
    (releaseIndex i released).Pairwise (· > ·) := by
  have hnodup : (releaseIndex i released).Nodup := by
    refine (List.perm_insertionSort _ _).nodup_iff.mpr ?_
    refine List.nodup_append.mpr ⟨h.imp Nat.ne_of_gt, List.nodup_singleton i, ?_⟩
    intro a ha b hb heq
    rw [List.mem_singleton.mp hb] at heq
    exact hi (heq ▸ ha)
  refine ((List.pairwise_insertionSort _ _).and hnodup).imp ?_
  intro a b hab
  exact Nat.lt_of_le_of_ne hab.1 hab.2.symm

/-! ## Drive names -/

theorem asI32_nonneg {i : Nat} : 0 ≤ asI32 i ↔ i % 2 ^ 32 < 2 ^ 31 := by
  unfold asI32
  rw [Int.bmod_def]
  split
  · omega
  · omega

theorem asI32_lt (i : Nat) : asI32 i < 4294967296 := by
  unfold asI32
  rw [Int.bmod_def]
  split
  · omega
  · omega

theorem getVirtDriveName_of_lt {index : Int} (h0 : 0 ≤ index) (hlt : index < 4294967296) :
    ∃ name, getVirtDriveName index = .ok name := by
  have hdone := letters_done 30 (Int.lt_trans hlt (by decide))
  unfold getVirtDriveName
  rw [if_neg (Int.not_lt.mpr h0)]
  refine ⟨_, if_neg ?_⟩
  exact Int.not_le.mpr hdone

theorem getVirtDriveName_ok {i : Nat} (h : i % 2 ^ 32 < 2 ^ 31) : ∃ name, getVirtDriveName (asI32 i) = .ok name :=
  getVirtDriveName_of_lt (asI32_nonneg.mpr h) (asI32_lt i)

/-! ## Books -/

/-- A VFIO device has an index if it is a block device. -/
def Device.Wf (device : Device) : Prop :=
  match device.config with
  | .vfioCfg config => config.devType = deviceTypeBlock ↔ ∃ virtPath, config.virtPath = some virtPath
  | _ => True

namespace DeviceManager

variable {checks : Bool} {m m' : DeviceManager} {k : Bool} {deviceId : String} {device : Device}

structure Wf (m : DeviceManager) : Prop where
  sorted : ∀ k, (m.sharedInfo.released k).Pairwise (· > ·)
  devices : ∀ d device, m.devices.lookup d = some device → device.Wf

/-- The indexes in use are those that the devices hold, and only declared indexes are released. -/
structure Books (k : Bool) (m : DeviceManager) : Prop where
  ledger : Ledger (inUse (m.sharedInfo.counter k) (m.sharedInfo.released k)) (m.held k)
  lt : ∀ i ∈ m.sharedInfo.released k, i < m.sharedInfo.counter k

theorem Lowest.books (h : m.Lowest checks k) : m.Books k := by
  refine ⟨⟨h.distinct, ?_⟩, fun i hi => (h.accounted i).mpr (.inl hi)⟩
  intro i
  constructor
  · rintro ⟨hlt, hfree⟩
    exact ((h.accounted i).mp hlt).resolve_left hfree
  · rintro ⟨d, hd⟩
    exact ⟨(h.accounted i).mpr (.inr ⟨d, hd⟩), fun hi => h.apart i hi d hd⟩

theorem Books.lowest (hsorted : (m.sharedInfo.released k).Pairwise (· > ·)) (h : m.Books k) : m.Lowest checks k := by
  have hiff := h.ledger.taken_iff
  refine ⟨h.ledger.single, ?_, ?_, ?_⟩
  · intro i info hdeclared
    obtain ⟨hfree, hbelow⟩ := Lib.lowest hsorted h.lt
    rw [(SharedInfo.declareDeviceIndex_ok hdeclared).index]
    exact ⟨fun d hd => hfree ((hiff _).mpr ⟨d, hd⟩), fun j hj => (hiff j).mp (hbelow j hj)⟩
  · intro i
    constructor
    · intro hlt
      by_cases hi : i ∈ m.sharedInfo.released k
      · exact .inl hi
      · exact .inr ((hiff i).mp ⟨hlt, hi⟩)
    · rintro (hi | hheld)
      · exact h.lt i hi
      · exact ((hiff i).mpr hheld).1
  · intro i hi d hd
    exact ((hiff i).mpr ⟨d, hd⟩).2 hi

/-! ### Changes of the devices -/

theorem held_insert (sharedInfo : SharedInfo) :
    held k ⟨m.devices.insert deviceId device, sharedInfo⟩ = Function.update (m.held k) deviceId (device.index k) := by
  funext d
  by_cases heq : d = deviceId
  · rw [heq, Function.update_self, held, AList.lookup_insert, Option.bind_some]
  · rw [Function.update_of_ne heq, held, AList.lookup_insert_ne heq, held]

theorem held_erase (sharedInfo : SharedInfo) :
    held k ⟨m.devices.erase deviceId, sharedInfo⟩ = Function.update (m.held k) deviceId none := by
  funext d
  by_cases heq : d = deviceId
  · rw [heq, Function.update_self, held, AList.lookup_erase, Option.bind_none]
  · rw [Function.update_of_ne heq, held, AList.lookup_erase_ne heq, held]

theorem held_of_lookup (h : m.devices.lookup deviceId = some device) : m.held k deviceId = device.index k := by
  rw [held, h, Option.bind_some]

theorem wf_insert (h : m.Wf) (hdevice : device.Wf) {sharedInfo : SharedInfo}
    (hsorted : ∀ k, (sharedInfo.released k).Pairwise (· > ·)) :
    Wf ⟨m.devices.insert deviceId device, sharedInfo⟩ := by
  refine ⟨hsorted, ?_⟩
  intro d device' hd
  rw [Dict.lookup_insert_eq] at hd
  split at hd
  · cases hd
    exact hdevice
  · exact h.devices d device' hd

theorem wf_erase (h : m.Wf) {sharedInfo : SharedInfo} (hsorted : ∀ k, (sharedInfo.released k).Pairwise (· > ·)) :
    Wf ⟨m.devices.erase deviceId, sharedInfo⟩ := by
  refine ⟨hsorted, ?_⟩
  intro d device' hd
  rw [Dict.lookup_erase_eq] at hd
  split at hd
  · cases hd
  · exact h.devices d device' hd

/-- Books of both kinds, in a well-formed manager. -/
structure Kept (m : DeviceManager) : Prop where
  wf : m.Wf
  books : ∀ k, m.Books k

/-- Only the attach count of a device changes. -/
theorem Kept.count (h : m.Kept) (hd : m.devices.lookup deviceId = some device) (count : Nat) :
    Kept { m with devices := m.devices.insert deviceId { device with attachCount := count } } := by
  have hdevice := h.wf.devices _ _ hd
  have hwf : Device.Wf { device with attachCount := count } := hdevice
  refine ⟨wf_insert h.wf hwf h.wf.sorted, fun k => ⟨?_, (h.books k).lt⟩⟩
  have hheld : m.held k deviceId = device.index k := held_of_lookup hd
  rw [held_insert]
  exact (h.books k).ledger.keep hheld

/-- The device is gone, and its index is released. -/
inductive Retired (m : DeviceManager) (deviceId : String) (device : Device) : DeviceManager → Prop where
  | released {k i} : device.index k = some i → device.index (!k) = none →
      Retired m deviceId device ⟨m.devices.erase deviceId, m.sharedInfo.releaseDeviceIndex i k⟩
  | unindexed : (∀ k, device.index k = none) → Retired m deviceId device ⟨m.devices.erase deviceId, m.sharedInfo⟩

theorem books_erase (h : m.Books k) (hd : m.devices.lookup deviceId = some device) (hnone : device.index k = none)
    {sharedInfo : SharedInfo} (hcounter : sharedInfo.counter k = m.sharedInfo.counter k)
    (hreleased : sharedInfo.released k = m.sharedInfo.released k) :
    Books k ⟨m.devices.erase deviceId, sharedInfo⟩ := by
  refine ⟨?_, ?_⟩
  · rw [held_erase, hcounter, hreleased]
    exact h.ledger.keep ((held_of_lookup hd).trans hnone)
  · rw [hcounter, hreleased]
    exact h.lt

theorem Kept.retire (h : m.Kept) (hd : m.devices.lookup deviceId = some device) (hr : Retired m deviceId device m') :
    Kept m' := by
  cases hr with
  | unindexed hnone =>
    exact ⟨wf_erase h.wf h.wf.sorted, fun k => books_erase (h.books k) hd (hnone k) rfl rfl⟩
  | @released k i hsome hnone =>
    have hheld : m.held k deviceId = some i := (held_of_lookup hd).trans hsome
    have hin := ((h.books k).ledger.taken_iff i).mpr ⟨deviceId, hheld⟩
    refine ⟨wf_erase h.wf ?_, ?_⟩
    · refine (Bool.forall_bool' k).mpr ⟨?_, ?_⟩
      · rw [SharedInfo.released_release_self]
        exact sorted_releaseIndex (h.wf.sorted k) hin.2
      · rw [SharedInfo.released_release_other]
        exact h.wf.sorted _
    · refine (Bool.forall_bool' k).mpr ⟨⟨?_, ?_⟩, ?_⟩
      · rw [held_erase, SharedInfo.counter_release, SharedInfo.released_release_self,
          inUse_release fun j => mem_releaseIndex]
        exact (h.books k).ledger.release hheld
      · intro j hj
        rw [SharedInfo.released_release_self, mem_releaseIndex] at hj
        rw [SharedInfo.counter_release]
        rcases hj with hj | rfl
        · exact (h.books k).lt j hj
        · exact hin.1
      · exact books_erase (h.books _) hd hnone (SharedInfo.counter_release _ _ _)
          (SharedInfo.released_release_other _ _)

/-- The device is gone with its index. -/
theorem not_books_of_lost {i : Nat} (h : m.Books k) (hd : m.devices.lookup deviceId = some device)
    (hi : device.index k = some i) : ¬ Books k ⟨m.devices.erase deviceId, m.sharedInfo⟩ := by
  intro h'
  have hheld : m.held k deviceId = some i := (held_of_lookup hd).trans hi
  have hledger := h'.ledger
  rw [held_erase] at hledger
  exact h.ledger.not_of_leak ((h.ledger.taken_iff i).mpr ⟨deviceId, hheld⟩) (.inl hheld) hledger

end DeviceManager

/-! ## Devices -/

namespace Device

variable {device : Device}

theorem increaseAttachCount_config (device : Device) : device.increaseAttachCount.2.config = device.config := by
  unfold increaseAttachCount
  split
  · rfl
  · split <;> rfl

theorem rollback_config (e : Error) (device : Device) : (rollback e device).2.config = device.config := by
  unfold rollback decreaseAttachCount
  split_ifs <;> rfl

theorem attachBlock_config (answers : Answers) (device : Device) :
    (attachBlock answers device).2.config = device.config := by
  rw [← device.increaseAttachCount_config]
  unfold attachBlock
  obtain ⟨e | attached, device'⟩ := device.increaseAttachCount
  · rfl
  · cases attached with
    | true => rfl
    | false =>
      cases answers.addDevice with
      | none => rfl
      | some e => exact rollback_config e device'

theorem attachVfio_config (answers : Answers) (device : Device) :
    (attachVfio answers device).2.config = device.config := by
  rw [← device.increaseAttachCount_config]
  unfold attachVfio
  cases answers.iommuGroup with
  | some e => exact device.increaseAttachCount_config.symm
  | none =>
    obtain ⟨e | attached, device'⟩ := device.increaseAttachCount
    · rfl
    · cases attached with
      | true => rfl
      | false =>
        cases answers.addDevice with
        | some e => exact rollback_config e device'
        | none => cases answers.guestPciPath <;> rfl

theorem attach_config (answers : Answers) (device : Device) : (attach answers device).2.config = device.config := by
  unfold attach
  split
  · exact attachBlock_config answers device
  · exact attachVfio_config answers device
  · exact attachBlock_config answers device

/-- The outcomes of `detach`. -/
inductive Detached (device : Device) : Except Error (Option Nat) × Device → Prop where
  | failed {e count} : device.attachCount ≤ 1 → Detached device (.error e, { device with attachCount := count })
  | last {count} : device.attachCount ≤ 1 → Detached device (.ok (detachedIndex device.config),
    { device with attachCount := count })
  | again {count} : 1 < device.attachCount → Detached device (.ok none, { device with attachCount := count })

theorem detach_cases (removeDevice : Option Error) (device : Device) :
    Detached device (device.detach removeDevice) := by
  unfold detach decreaseAttachCount
  by_cases h0 : device.attachCount = 0
  · rw [if_pos h0]
    exact .failed (Nat.le_of_lt (h0 ▸ Nat.one_pos))
  · rw [if_neg h0]
    by_cases h1 : device.attachCount = 1
    · rw [if_pos h1]
      cases removeDevice with
      | none => exact .last (Nat.le_of_eq h1)
      | some e => exact .failed (Nat.le_of_eq h1)
    · rw [if_neg h1]
      exact .again (by omega)

end Device

/-! ## Removing and adding -/

namespace DeviceManager

variable {checks : Bool} {m m' : DeviceManager} {deviceId : String} {device : Device}

/-- The shared info when the device is gone. -/
def retire (device : Device) (info : SharedInfo) : SharedInfo :=
  match device.config with
  | .blockCfg config => info.releaseDeviceIndex config.index (config.driverOption == kataNvdimmDevType)
  | .vfioCfg config => config.virtPath.elim info fun path => info.releaseDeviceIndex path.1 false
  | .vhostUserBlkCfg config => info.releaseDeviceIndex config.index false

theorem retired_retire (m : DeviceManager) (deviceId : String) (device : Device) :
    Retired m deviceId device ⟨m.devices.erase deviceId, retire device m.sharedInfo⟩ := by
  obtain ⟨count, config⟩ := device
  cases config with
  | blockCfg config =>
    refine .released (if_pos rfl) (if_neg ?_)
    exact fun h => Bool.not_ne_self _ h.symm
  | vhostUserBlkCfg config => exact .released rfl rfl
  | vfioCfg config =>
    obtain ⟨hostPath, devType, virtPath⟩ := config
    cases virtPath with
    | some path => exact .released (k := false) rfl rfl
    | none => exact .unindexed (Bool.forall_bool.mpr ⟨rfl, rfl⟩)

/-- The outcomes of removing a device. -/
inductive Removed (m : DeviceManager) (deviceId : String) (device : Device) : DeviceManager → Prop where
  | failed {count : Nat} : device.attachCount ≤ 1 →
      Removed m deviceId device { m with devices := m.devices.insert deviceId { device with attachCount := count } }
  | last {m' : DeviceManager} : device.attachCount ≤ 1 → Retired m deviceId device m' → Removed m deviceId device m'
  | again : 1 < device.attachCount → Removed m deviceId device ⟨m.devices.erase deviceId, m.sharedInfo⟩

theorem tryRemoveDevice_cases (removeDevice : Option Error) (hd : m.devices.lookup deviceId = some device) :
    Removed m deviceId device (m.tryRemoveDevice removeDevice deviceId).2 := by
  have hcases := device.detach_cases removeDevice
  unfold tryRemoveDevice
  simp only [hd]
  generalize device.detach removeDevice = r at hcases ⊢
  cases hcases with
  | failed hle => exact .failed hle
  | again hlt => exact .again hlt
  | last hle =>
    have hretired := retired_retire m deviceId device
    obtain ⟨count, config⟩ := device
    cases config with
    | blockCfg config | vhostUserBlkCfg config => exact .last hle hretired
    | vfioCfg config =>
      obtain ⟨hostPath, devType, virtPath⟩ := config
      cases virtPath with
      | none | some path => exact .last hle hretired

/-- Adding a device changes its count only, or it is gone. -/
theorem tryAddDevice_cases (answers : Device.Answers) (hd : m.devices.lookup deviceId = some device)
    (hwf : device.Wf) : ∃ r m', m.tryAddDevice answers deviceId = .ok (r, m') ∧
      ((∃ count, m' = { m with devices := m.devices.insert deviceId { device with attachCount := count } }) ∨
        Retired m deviceId device m') := by
  obtain ⟨count, config⟩ := device
  have hconfig := Device.attach_config answers ⟨count, config⟩
  unfold tryAddDevice
  simp only [hd]
  generalize Device.attach answers ⟨count, config⟩ = out at hconfig ⊢
  obtain ⟨r, count', config'⟩ := out
  obtain rfl : config' = config := hconfig
  cases r with
  | ok _ => exact ⟨_, _, rfl, .inl ⟨count', rfl⟩⟩
  | error e =>
    refine ⟨.error e, _, ?_, .inr (retired_retire _ _ _)⟩
    cases config' with
    | blockCfg config | vhostUserBlkCfg config => rfl
    | vfioCfg config =>
      by_cases htype : config.devType = deviceTypeBlock
      · obtain ⟨path, hpath⟩ := hwf.mp htype
        simp only [retire, htype, hpath, if_true]
        rfl
      · have hnone : config.virtPath = none := by
          cases hpath : config.virtPath with
          | none => rfl
          | some path => exact absurd (hwf.mpr ⟨path, hpath⟩) htype
        simp only [retire, if_neg htype, hnone]
        rfl

/-! ## Creating -/

/-- The rest of the creation succeeds once `i` has been declared. -/
def Creates (hostPath : Except Error String) (config : DeviceConfig) (isPmem : Bool) (i : Nat) : Prop :=
  (isPmem = false → i % 2 ^ 32 < 2 ^ 31) ∧ config.PathKnown hostPath

section Create

variable {sharedInfo : SharedInfo} {isPmem : Bool} {i : Nat} {hostPath : Except Error String} {config : DeviceConfig}

theorem getDevVirtPath_declared (h : m.sharedInfo.declareDeviceIndex checks isPmem = .ok (i, sharedInfo)) :
    m.getDevVirtPath checks deviceTypeBlock isPmem =
      .ok ((if isPmem then .ok s!"pmem{i}" else getVirtDriveName (asI32 i)).map fun driveName =>
        some (i, s!"/dev/{driveName}"), { m with sharedInfo := sharedInfo }) := by
  rw [getDevVirtPath, if_pos rfl, h]
  simp only [bind, Except.bind]
  generalize (if isPmem then .ok s!"pmem{i}" else getVirtDriveName (asI32 i) : Except Error String) = driveName
  cases driveName with
  | error e | ok name => rfl

theorem getDevVirtPath_named (h : m.sharedInfo.declareDeviceIndex checks isPmem = .ok (i, sharedInfo))
    (hname : isPmem = false → i % 2 ^ 32 < 2 ^ 31) :
    ∃ path, m.getDevVirtPath checks deviceTypeBlock isPmem = .ok (.ok (some (i, path)),
      { m with sharedInfo := sharedInfo }) := by
  rw [getDevVirtPath_declared h]
  cases isPmem with
  | true => exact ⟨_, rfl⟩
  | false =>
    obtain ⟨name, hok⟩ := getVirtDriveName_ok (hname rfl)
    rw [if_neg Bool.false_ne_true, hok]
    exact ⟨_, rfl⟩

theorem getDevVirtPath_unnamed (h : m.sharedInfo.declareDeviceIndex checks false = .ok (i, sharedInfo))
    (hname : ¬ i % 2 ^ 32 < 2 ^ 31) :
    m.getDevVirtPath checks deviceTypeBlock false =
      .ok (.error ["Index cannot be negative"], { m with sharedInfo := sharedInfo }) := by
  rw [getDevVirtPath_declared h, if_neg Bool.false_ne_true, getVirtDriveName,
    if_pos (Int.not_le.mp (mt asI32_nonneg.mp hname))]
  rfl

/-- Only pmem devices have the driver by which they are told from the others. -/
theorem blockDriver_pmem {driverOption driver : String} (h : blockDriver driverOption = some (driver, isPmem)) :
    (driver == kataNvdimmDevType) = isPmem := by
  unfold blockDriver at h
  split at h
  · cases h
    decide
  · split at h
    · cases h
      decide
    · split at h
      · cases h
        decide
      · cases h

theorem vfio_block {config : VfioConfig} (h : (DeviceConfig.vfioCfg config).kind = some isPmem) :
    isPmem = false ∧ config.devType = deviceTypeBlock := by
  rw [DeviceConfig.kind] at h
  split at h
  · rename_i htype
    exact ⟨(Option.some.inj h).symm, htype⟩
  · cases h

/-- What the creation of a device of some kind does once its index has been declared. -/
structure Creation (m : DeviceManager) (isPmem : Bool) (i : Nat) (sharedInfo : SharedInfo)
    (hostPath : Except Error String)
    (config : DeviceConfig) (r : Except Panic (Except Error Device × DeviceManager)) : Prop where
  created : Creates hostPath config isPmem i → ∃ device, r = .ok (.ok device, { m with sharedInfo := sharedInfo }) ∧
    device.Wf ∧ device.index isPmem = some i ∧ device.index (!isPmem) = none
  failed : ¬ Creates hostPath config isPmem i → ∃ e, r = .ok (.error e, { m with sharedInfo := sharedInfo })

/-- How a device is made of what `get_dev_virt_path` returns for it. -/
inductive Built (isPmem : Bool) (known : Prop) : Except Panic (Except Error (Option (Nat × String)) × DeviceManager) →
    Except Panic (Except Error Device × DeviceManager) → Prop where
  | panics {p} : Built isPmem known (.error p) (.error p)
  | failed {e e' m} : Built isPmem known (.ok (.error e, m)) (.ok (.error e', m))
  | unindexed {m r} : Built isPmem known (.ok (.ok none, m)) r
  | made {i path m device} : known → device.Wf → device.index isPmem = some i → device.index (!isPmem) = none →
      Built isPmem known (.ok (.ok (some (i, path)), m)) (.ok (.ok device, m))
  | unknown {i path m e} : ¬ known → Built isPmem known (.ok (.ok (some (i, path)), m)) (.ok (.error e, m))

theorem createBlockDevice_built {config : BlockConfig} (checks : Bool) (m : DeviceManager)
    (hostPath : Except Error String) (hkind : (DeviceConfig.blockCfg config).kind = some isPmem) :
    Built isPmem ((DeviceConfig.blockCfg config).PathKnown hostPath) (m.getDevVirtPath checks deviceTypeBlock isPmem)
      (m.createDevice checks hostPath (.blockCfg config)) := by
  obtain ⟨⟨driver, kind⟩, hdriver, rfl⟩ := Option.map_eq_some_iff.mp hkind
  have hpmem : (driver == kataNvdimmDevType) = kind := blockDriver_pmem hdriver
  have hother : ¬ (driver == kataNvdimmDevType) = !kind := by
    rw [hpmem]
    exact (Bool.not_ne_self _).symm
  simp only [createDevice, createBlockDevice, hdriver]
  rcases m.getDevVirtPath checks deviceTypeBlock kind with p | ⟨e | _ | ⟨i, path⟩, m'⟩
  · exact .panics
  · exact .failed
  · exact .unindexed
  · simp only [bind, Except.bind]
    by_cases hempty : config.pathOnHost.isEmpty = true
    · simp only [hempty, if_true]
      cases hostPath with
      | ok host => exact .made (fun _ => ⟨host, rfl⟩) trivial (if_pos hpmem) (if_neg hother)
      | error e =>
        refine .unknown fun hknown => ?_
        obtain ⟨host, hhost⟩ := hknown hempty
        cases hhost
    · simp only [hempty]
      exact .made (fun h => absurd h hempty) trivial (if_pos hpmem) (if_neg hother)

theorem createDevice_built (checks : Bool) (m : DeviceManager) (hostPath : Except Error String)
    (hkind : config.kind = some isPmem) :
    Built isPmem (config.PathKnown hostPath) (m.getDevVirtPath checks deviceTypeBlock isPmem)
      (m.createDevice checks hostPath config) := by
  cases config with
  | blockCfg config => exact createBlockDevice_built checks m hostPath hkind
  | vfioCfg config =>
    obtain ⟨rfl, htype⟩ := vfio_block hkind
    simp only [createDevice, htype]
    rcases m.getDevVirtPath checks deviceTypeBlock false with p | ⟨e | _ | ⟨i, path⟩, m'⟩
    · exact .panics
    · exact .failed
    · exact .unindexed
    · exact .made trivial ⟨fun _ => ⟨_, rfl⟩, fun _ => rfl⟩ rfl rfl
  | vhostUserBlkCfg config =>
    obtain ⟨driver, hdriver, rfl⟩ := Option.map_eq_some_iff.mp hkind
    simp only [createDevice, createVhostBlkDevice, hdriver]
    rcases m.getDevVirtPath checks deviceTypeBlock false with p | ⟨e | _ | ⟨i, path⟩, m'⟩
    · exact .panics
    · exact .failed
    · exact .unindexed
    · exact .made trivial trivial rfl rfl

theorem createDevice_creation (hostPath : Except Error String) (hkind : config.kind = some isPmem)
    (h : m.sharedInfo.declareDeviceIndex checks isPmem = .ok (i, sharedInfo)) :
    Creation m isPmem i sharedInfo hostPath config (m.createDevice checks hostPath config) := by
  have hbuilt := createDevice_built checks m hostPath hkind
  by_cases hname : isPmem = false → i % 2 ^ 32 < 2 ^ 31
  · obtain ⟨path, hpath⟩ := getDevVirtPath_named h hname
    rw [hpath] at hbuilt
    generalize m.createDevice checks hostPath config = r at hbuilt
    cases hbuilt with
    | made hknown hwf hindex hother =>
      exact ⟨fun _ => ⟨_, rfl, hwf, hindex, hother⟩, fun hfails => absurd ⟨hname, hknown⟩ hfails⟩
    | unknown hknown => exact ⟨fun hcreates => absurd hcreates.2 hknown, fun _ => ⟨_, rfl⟩⟩
  · refine ⟨fun hcreates => absurd hcreates.1 hname, fun _ => ?_⟩
    cases isPmem with
    | true => exact absurd nofun hname
    | false =>
      rw [getDevVirtPath_unnamed h fun hlt => hname fun _ => hlt] at hbuilt
      generalize m.createDevice checks hostPath config = r at hbuilt
      cases hbuilt with
      | failed => exact ⟨_, rfl⟩

/-- Nothing is created if the counter overflows. -/
theorem createDevice_panics (hostPath : Except Error String) {p : Panic} (hkind : config.kind = some isPmem)
    (h : m.sharedInfo.declareDeviceIndex checks isPmem = .error p) :
    m.createDevice checks hostPath config = .error p := by
  have hbuilt := createDevice_built checks m hostPath hkind
  rw [getDevVirtPath, if_pos rfl, h, error_bind] at hbuilt
  generalize m.createDevice checks hostPath config = r at hbuilt
  cases hbuilt with
  | panics => rfl

theorem createDevice_unindexed (checks : Bool) (hostPath : Except Error String) (m : DeviceManager)
    (hkind : config.kind = none) : ∃ r, m.createDevice checks hostPath config = .ok (r, m) ∧
      ∀ device, r = .ok device → device.Wf ∧ ∀ k, device.index k = none := by
  cases config with
  | blockCfg config =>
    simp only [createDevice, createBlockDevice, Option.map_eq_none_iff.mp hkind]
    exact ⟨_, rfl, nofun⟩
  | vfioCfg config =>
    have htype : config.devType ≠ deviceTypeBlock := by
      intro htype
      rw [DeviceConfig.kind, if_pos htype] at hkind
      cases hkind
    have hpath : m.getDevVirtPath checks config.devType false = .ok (.ok none, m) := if_neg htype
    refine ⟨.ok (.new (.vfioCfg { config with virtPath := none })), ?_, ?_⟩
    · simp only [createDevice, hpath]
      rfl
    · rintro device ⟨⟩
      refine ⟨⟨fun h => absurd h htype, nofun⟩, ?_⟩
      intro k
      cases k with
      | false | true => rfl
  | vhostUserBlkCfg config =>
    simp only [createDevice, createVhostBlkDevice, Option.map_eq_none_iff.mp hkind]
    exact ⟨_, rfl, nofun⟩

theorem Kept.add (h : m.Kept) (hfresh : m.devices.lookup deviceId = none) (hwf : device.Wf)
    (hnone : ∀ k, device.index k = none) : Kept { m with devices := m.devices.insert deviceId device } := by
  refine ⟨wf_insert h.wf hwf h.wf.sorted, fun k => ⟨?_, (h.books k).lt⟩⟩
  have hheld : m.held k deviceId = none := by rw [held, hfresh, Option.bind_none]
  rw [held_insert, hnone]
  exact (h.books k).ledger.keep hheld

/-- A new device that holds the index that was declared for it, when none was released. -/
theorem Kept.declare (h : m.Kept) (hfresh : m.devices.lookup deviceId = none) (hwf : device.Wf)
    (hindex : device.index isPmem = some i) (hother : device.index (!isPmem) = none)
    (hdeclared : m.sharedInfo.Declared isPmem i sharedInfo) (hnil : m.sharedInfo.released isPmem = [])
    (hlt : m.sharedInfo.counter isPmem + 1 < 2 ^ 64) : Kept ⟨m.devices.insert deviceId device, sharedInfo⟩ := by
  have hheld : ∀ k, m.held k deviceId = none := by
    intro k
    rw [held, hfresh, Option.bind_none]
  have hreleased : sharedInfo.released isPmem = [] := by rw [hdeclared.released, hnil, List.dropLast_nil]
  have hi := hdeclared.index_of_nil hnil
  have hcounter : sharedInfo.counter isPmem = m.sharedInfo.counter isPmem + 1 := hdeclared.counter.trans (if_pos hlt)
  refine ⟨wf_insert h.wf hwf ?_, ?_⟩
  · refine (Bool.forall_bool' isPmem).mpr ⟨?_, ?_⟩
    · rw [hreleased]
      exact .nil
    · rw [hdeclared.otherReleased]
      exact h.wf.sorted _
  · refine (Bool.forall_bool' isPmem).mpr ⟨⟨?_, ?_⟩, ⟨?_, ?_⟩⟩
    · have hledger := (h.books isPmem).ledger
      rw [hnil] at hledger
      rw [held_insert, hindex, hi, hcounter, hreleased, inUse_succ]
      exact hledger.take (hheld _) fun hmem => Nat.lt_irrefl _ hmem.1
    · rw [hreleased]
      nofun
    · rw [held_insert, hother, hdeclared.otherCounter, hdeclared.otherReleased]
      exact (h.books _).ledger.keep (hheld _)
    · rw [hdeclared.otherCounter, hdeclared.otherReleased]
      exact (h.books _).lt

theorem Books.counter_free (h : m.Books isPmem) (d : String) :
    m.held isPmem d ≠ some (m.sharedInfo.counter isPmem) := by
  intro hd
  exact Nat.lt_irrefl _ ((h.ledger.taken_iff _).mpr ⟨d, hd⟩).1

theorem Books.counter_inUse (h : m.Books isPmem) (hdeclared : m.sharedInfo.Declared isPmem i sharedInfo)
    (hlt : m.sharedInfo.counter isPmem + 1 < 2 ^ 64) :
    m.sharedInfo.counter isPmem ∈ inUse (sharedInfo.counter isPmem) (sharedInfo.released isPmem) := by
  rw [hdeclared.counter, if_pos hlt, hdeclared.released]
  exact ⟨Nat.lt_succ_self _, fun hmem => Nat.lt_irrefl _ (h.lt _ (List.dropLast_subset _ hmem))⟩

theorem Books.not_declare_lost (h : m.Books isPmem) (hdeclared : m.sharedInfo.Declared isPmem i sharedInfo) :
    ¬ Books isPmem { m with sharedInfo := sharedInfo } := by
  intro h'
  by_cases hlt : m.sharedInfo.counter isPmem + 1 < 2 ^ 64
  · obtain ⟨d, hd⟩ := (h'.ledger.taken_iff _).mp (h.counter_inUse hdeclared hlt)
    exact h.counter_free d hd
  · -- the counter is 0 now, so that nothing is held or released but the index that was declared
    have hcounter : sharedInfo.counter isPmem = 0 := hdeclared.counter.trans (if_neg hlt)
    have hreleased : ∀ j < m.sharedInfo.counter isPmem, j ∈ m.sharedInfo.released isPmem := by
      intro j hj
      by_contra hmem
      have hheld := (h'.ledger.taken_iff j).mpr ((h.ledger.taken_iff j).mp ⟨hj, hmem⟩)
      exact Nat.not_lt_zero j (hcounter ▸ hheld.1)
    have hnil : (m.sharedInfo.released isPmem).dropLast = [] := by
      rw [← hdeclared.released]
      refine List.eq_nil_iff_forall_not_mem.mpr ?_
      intro j hj
      exact Nat.not_lt_zero j (hcounter ▸ h'.lt j hj)
    have h0 := hreleased 0 (by omega)
    have h1 := hreleased 1 (by omega)
    generalize m.sharedInfo.released isPmem = released at h0 h1 hnil
    cases released with
    | nil => cases h0
    | cons a rest =>
      cases rest with
      | nil =>
        have hone := (List.mem_singleton.mp h0).trans (List.mem_singleton.mp h1).symm
        cases hone
      | cons b rest => cases hnil

/-- The books are kept only if the new device got the index that the counter was at. -/
theorem Books.of_declare (h : m.Books isPmem) (hdeclared : m.sharedInfo.Declared isPmem i sharedInfo)
    (hindex : device.index isPmem = some i) (h' : Books isPmem ⟨m.devices.insert deviceId device, sharedInfo⟩) :
    m.sharedInfo.released isPmem = [] ∧ m.sharedInfo.counter isPmem + 1 < 2 ^ 64 := by
  have hledger := h'.ledger
  rw [held_insert, hindex] at hledger
  by_cases hlt : m.sharedInfo.counter isPmem + 1 < 2 ^ 64
  · refine ⟨?_, hlt⟩
    obtain ⟨d, hd⟩ := (hledger.taken_iff _).mp (h.counter_inUse hdeclared hlt)
    have hi : i = m.sharedInfo.counter isPmem := by
      by_cases heq : d = deviceId
      · rw [heq, Function.update_self] at hd
        exact Option.some.inj hd
      · rw [Function.update_of_ne heq] at hd
        exact absurd hd (h.counter_free d)
    rw [hdeclared.index] at hi
    cases hlast : (m.sharedInfo.released isPmem).getLast? with
    | none => exact List.getLast?_eq_none_iff.mp hlast
    | some j =>
      rw [hlast, Option.getD_some] at hi
      exact absurd (h.lt j (List.mem_of_getLast? hlast)) (hi ▸ Nat.lt_irrefl j)
  · have hheld := (hledger.taken_iff i).mpr ⟨deviceId, Function.update_self _ _ _⟩
    have hcounter : sharedInfo.counter isPmem = 0 := hdeclared.counter.trans (if_neg hlt)
    exact absurd (hcounter ▸ hheld.1) (Nat.not_lt_zero i)

end Create

theorem newDeviceId_fresh {random : Nat → String} (h : m.newDeviceId random = .ok deviceId) :
    m.devices.lookup deviceId = none := by
  unfold newDeviceId at h
  split at h
  · rename_i d hfind
    cases h
    have hnone := List.find?_some hfind
    exact Option.isNone_iff_eq_none.mp hnone
  · cases h

end DeviceManager

/-! ## Runs -/

section Runs

open DeviceManager

variable {checks : Bool} {m : DeviceManager}

theorem DeviceManager.Kept.lowest (h : m.Kept) (checks : Bool) : LowestState checks (some m) :=
  ⟨(h.books false).lowest (h.wf.sorted false), (h.books true).lowest (h.wf.sorted true)⟩

theorem LowestState.books (h : LowestState checks (some m)) (k : Bool) : m.Books k := by
  cases k with
  | false => exact h.1.books
  | true => exact h.2.books

theorem newDevice_kept (checks : Bool) (h : m.Kept) (random : Nat → String) (hostPath : Except Error String)
    (config : DeviceConfig) (htidy : Tidy (some m) (.newDevice random hostPath config)) :
    ∃ m', next checks (some m) (.newDevice random hostPath config) = some m' ∧ m'.Kept := by
  cases hid : m.newDeviceId random with
  | error e => exact ⟨m, by simp only [next, newDevice, hid]; rfl, h⟩
  | ok deviceId =>
    cases hfind : m.findDevice config.path with
    | some d => exact ⟨m, by simp only [next, newDevice, hid, hfind]; rfl, h⟩
    | none =>
      cases hkind : config.kind with
      | none =>
        obtain ⟨r, hcreate, hnone⟩ := createDevice_unindexed checks hostPath m hkind
        simp only [next, newDevice, hid, hfind, hcreate]
        cases r with
        | error e => exact ⟨m, rfl, h⟩
        | ok device =>
          obtain ⟨hwf, hnone⟩ := hnone device rfl
          exact ⟨_, rfl, h.add (newDeviceId_fresh hid) hwf hnone⟩
      | some isPmem =>
        obtain ⟨hnil, hlt, hname, hpath⟩ := htidy deviceId isPmem hid hfind hkind
        obtain ⟨i, sharedInfo, hdeclare⟩ := SharedInfo.declareDeviceIndex_of_lt checks hlt
        have hdeclared := SharedInfo.declareDeviceIndex_ok hdeclare
        have hcreates : Creates hostPath config isPmem i := ⟨hdeclared.index_of_nil hnil ▸ hname, hpath⟩
        obtain ⟨device, hcreate, hwf, hindex, hother⟩ :=
          (createDevice_creation hostPath hkind hdeclare).created hcreates
        simp only [next, newDevice, hid, hfind, hcreate]
        exact ⟨_, rfl, h.declare (newDeviceId_fresh hid) hwf hindex hother hdeclared hnil hlt⟩

theorem newDevice_tidy (h : m.Kept) (random : Nat → String) (hostPath : Except Error String) (config : DeviceConfig)
    (hnext : LowestState checks (next checks (some m) (.newDevice random hostPath config))) :
    Tidy (some m) (.newDevice random hostPath config) := by
  intro deviceId isPmem hid hfind hkind
  cases hdeclare : m.sharedInfo.declareDeviceIndex checks isPmem with
  | error p =>
    simp only [next, newDevice, hid, hfind, createDevice_panics hostPath hkind hdeclare] at hnext
    exact hnext.elim
  | ok r =>
    obtain ⟨i, sharedInfo⟩ := r
    have hdeclared := SharedInfo.declareDeviceIndex_ok hdeclare
    have hcreation := createDevice_creation hostPath hkind hdeclare
    by_cases hcreates : Creates hostPath config isPmem i
    · obtain ⟨device, hcreate, _, hindex, _⟩ := hcreation.created hcreates
      simp only [next, newDevice, hid, hfind, hcreate] at hnext
      obtain ⟨hnil, hlt⟩ := (h.books isPmem).of_declare hdeclared hindex (LowestState.books hnext isPmem)
      exact ⟨hnil, hlt, hdeclared.index_of_nil hnil ▸ hcreates.1, hcreates.2⟩
    · obtain ⟨e, hcreate⟩ := hcreation.failed hcreates
      simp only [next, newDevice, hid, hfind, hcreate] at hnext
      exact absurd (LowestState.books hnext isPmem) ((h.books isPmem).not_declare_lost hdeclared)

theorem tryAddDevice_kept (checks : Bool) (h : m.Kept) (answers : Device.Answers) (deviceId : String) :
    ∃ m', next checks (some m) (.tryAddDevice answers deviceId) = some m' ∧ m'.Kept := by
  cases hd : m.devices.lookup deviceId with
  | none => exact ⟨m, by simp only [next, tryAddDevice, hd]; rfl, h⟩
  | some device =>
    obtain ⟨r, m', hadd, hcases⟩ := tryAddDevice_cases answers hd (h.wf.devices _ _ hd)
    refine ⟨m', by simp only [next, hadd]; rfl, ?_⟩
    rcases hcases with ⟨count, rfl⟩ | hretired
    · exact h.count hd count
    · exact h.retire hd hretired

theorem tryRemoveDevice_kept (h : m.Kept) (removeDevice : Option Error) (deviceId : String)
    (htidy : Tidy (some m) (.tryRemoveDevice removeDevice deviceId)) :
    Kept (m.tryRemoveDevice removeDevice deviceId).2 := by
  cases hd : m.devices.lookup deviceId with
  | none =>
    simp only [tryRemoveDevice, hd]
    exact h
  | some device =>
    have hcases := tryRemoveDevice_cases removeDevice hd
    generalize (m.tryRemoveDevice removeDevice deviceId).2 = m' at hcases
    cases hcases with
    | failed _ => exact h.count hd _
    | last _ hretired => exact h.retire hd hretired
    | again hlt =>
      refine h.retire hd (.unindexed ?_)
      intro k
      cases hi : device.index k with
      | none => rfl
      | some i => exact absurd (htidy device k i hd hi) (Nat.not_le.mpr hlt)

theorem tryRemoveDevice_tidy (h : m.Kept) (removeDevice : Option Error) (deviceId : String)
    (hnext : LowestState checks (some (m.tryRemoveDevice removeDevice deviceId).2)) :
    Tidy (some m) (.tryRemoveDevice removeDevice deviceId) := by
  intro device isPmem i hd hi
  have hcases := tryRemoveDevice_cases removeDevice hd
  generalize (m.tryRemoveDevice removeDevice deviceId).2 = m' at hcases hnext
  cases hcases with
  | failed hle | last hle _ => exact hle
  | again _ => exact absurd (hnext.books isPmem) (not_books_of_lost (h.books isPmem) hd hi)

theorem next_kept (checks : Bool) (h : m.Kept) (op : Op) (htidy : Tidy (some m) op) :
    ∃ m', next checks (some m) op = some m' ∧ m'.Kept := by
  cases op with
  | newDevice random hostPath config => exact newDevice_kept checks h random hostPath config htidy
  | tryAddDevice answers deviceId => exact tryAddDevice_kept checks h answers deviceId
  | tryRemoveDevice removeDevice deviceId => exact ⟨_, rfl, tryRemoveDevice_kept h removeDevice deviceId htidy⟩

theorem next_tidy (h : m.Kept) (op : Op) (hnext : LowestState checks (next checks (some m) op)) :
    Tidy (some m) op := by
  cases op with
  | newDevice random hostPath config => exact newDevice_tidy h random hostPath config hnext
  | tryAddDevice answers deviceId => trivial
  | tryRemoveDevice removeDevice deviceId => exact tryRemoveDevice_tidy h removeDevice deviceId hnext

theorem kept_new : DeviceManager.new.Kept := by
  have hempty : Ledger (inUse 0 []) (fun _ : String => none) := by
    have hnone : inUse 0 [] = ∅ := Set.eq_empty_iff_forall_notMem.mpr fun i hi => Nat.not_lt_zero i hi.1
    rw [hnone]
    exact .empty
  refine ⟨⟨?_, nofun⟩, ?_⟩
  · intro k
    cases k with
    | false | true => exact .nil
  · intro k
    cases k with
    | false | true => exact ⟨hempty, nofun⟩

def WfState : Option DeviceManager → Prop
  | none => True
  | some m => m.Wf

theorem LowestState.kept (h : LowestState checks (some m)) (hwf : m.Wf) : m.Kept := ⟨hwf, h.books⟩

theorem next_wf (s : Option DeviceManager) (op : Op) (hwf : WfState s) (h : LowestState checks s)
    (htidy : Tidy s op) : WfState (next checks s op) := by
  cases s with
  | none => exact h.elim
  | some m =>
    obtain ⟨m', hnext, hkept⟩ := next_kept checks (h.kept hwf) op htidy
    rw [hnext]
    exact hkept.wf

theorem next_lowest_iff (s : Option DeviceManager) (op : Op) (hwf : WfState s) (h : LowestState checks s) :
    LowestState checks (next checks s op) ↔ Tidy s op := by
  cases s with
  | none => exact h.elim
  | some m =>
    refine ⟨next_tidy (h.kept hwf) op, ?_⟩
    intro htidy
    obtain ⟨m', hnext, hkept⟩ := next_kept checks (h.kept hwf) op htidy
    rw [hnext]
    exact hkept.lowest checks

theorem indexes_lowest_iff (checks : Bool) (ops : List Op) :
    Always (next checks) (LowestState checks) (some .new) ops ↔
      Throughout (next checks) Tidy (some .new) ops := by
  have hwf : WfState (some .new) := kept_new.wf
  exact always_iff_of next_wf next_lowest_iff hwf (kept_new.lowest checks) ops

/-- A device is created, added, removed and created again, and then another one is created. -/
def reuseOps : List Op :=
  let block (path : String) : DeviceConfig := .blockCfg ⟨path, 0, virtioBlockPci, ""⟩
  [.newDevice (fun _ => "a") (.error []) (block "/dev/a"), .tryAddDevice ⟨none, none, none⟩ "a",
    .tryRemoveDevice none "a", .newDevice (fun _ => "a") (.error []) (block "/dev/a"),
    .newDevice (fun _ => "b") (.error []) (block "/dev/b")]

/-- The second device gets the index 2, and no device has the index 1. -/
theorem index_skipped :
    ((reuseOps.foldl (next false) (some .new)).map fun m => (m.devices.keys, m.held false "a", m.held false "b")) =
        some (["b", "a"], some 0, some 2) ∧
      ¬ Always (next false) (LowestState false) (some .new) reuseOps := by
  refine ⟨by decide, ?_⟩
  intro h
  have hwf : WfState (some .new) := kept_new.wf
  obtain ⟨_, _, _, hreuse, _⟩ :=
    (always_iff_of next_wf next_lowest_iff hwf (kept_new.lowest false) reuseOps).mp h
  -- the index 0 is waiting to be used again
  obtain ⟨hnil, _⟩ := hreuse "a" false (by decide) (by decide) (by decide)
  revert hnil
  decide

end Runs

end Kata.Hypervisor
