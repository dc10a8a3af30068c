import Kata.Oci.Lossless

/-!
# Kata.Cgroups.Devices

The device rules of a container, from the OCI specification to the list that is handed to the
devices controller (`rustjail/src/cgroups/fs/mod.rs`), and what the way through ttRPC does to that
list.

The controller reads an absent number as 0. A negative number, such as the wildcard of
`DEFAULT_ALLOWED_DEVICES`, does not survive ttRPC and ends as 0 as well:
`setDevicesResources_hop_iff` says that the lists agree exactly when no rule has one.

`DeviceType` and its `from_char` are not part of the repository; all that is assumed is that
`from_char` knows the letters `b` and `c`.
-/

namespace Kata.Cgroups

open Lib Oci

inductive DevicePermissions where
  | read
  | write
  | mkNod
deriving DecidableEq, Repr

structure DeviceResource (DeviceType : Type) where
  allow : Bool
  devtype : DeviceType
  major : Int64
  minor : Int64
  access : List DevicePermissions
deriving DecidableEq

def ruleForAllDevices (d : LinuxDeviceCgroup) : Bool :=
  d.major.getD 0 = 0 ∧ d.minor.getD 0 = 0 ∧ (d.type = "" ∨ d.type = "a") ∧
    'r' ∈ d.access.toList ∧ 'w' ∈ d.access.toList ∧ 'm' ∈ d.access.toList

def permission : Char → Option DevicePermissions
  | 'r' => some .read
  | 'w' => some .write
  | 'm' => some .mkNod
  | _ => none

section Rules

variable {DeviceType : Type} (fromChar : Option Char → Option DeviceType)

def linuxDeviceCgroupToDeviceResource (d : LinuxDeviceCgroup) : Option (DeviceResource DeviceType) :=
  match fromChar d.type.toList.head? with
  | none => none
  | some devType =>
    some
      { allow := d.allow
        devtype := devType
        major := d.major.getD 0
        minor := d.minor.getD 0
        access := d.access.toList.filterMap permission }

/-- What a rule adds to the list, if anything. -/
def ruleResource (d : LinuxDeviceCgroup) : Option (DeviceResource DeviceType) :=
  if ruleForAllDevices d then none else linuxDeviceCgroupToDeviceResource fromChar d

-- The list is set on the cgroup and on that of the pod.
def setDevicesResources (deviceResources : List LinuxDeviceCgroup) : List (DeviceResource DeviceType) :=
  deviceResources.filterMap (ruleResource fromChar)

variable {fromChar} {d : LinuxDeviceCgroup}

theorem ruleForAllDevices_of_type (h : d.type = "b" ∨ d.type = "c") : ruleForAllDevices d = false := by
  have htype : ¬ (d.type = "" ∨ d.type = "a") := by
    rcases h with h | h <;> rw [h] <;> decide
  simp only [ruleForAllDevices, decide_eq_false_iff_not]
  exact fun hall => htype hall.2.2.1

theorem ruleResource_of_type (h : d.type = "b" ∨ d.type = "c") :
    ruleResource fromChar d = linuxDeviceCgroupToDeviceResource fromChar d := by
  rw [ruleResource, ruleForAllDevices_of_type h]
  rfl

theorem linuxDeviceCgroupToDeviceResource_of_type {t : DeviceType} (h : fromChar d.type.toList.head? = some t) :
    linuxDeviceCgroupToDeviceResource fromChar d =
      some ⟨d.allow, t, d.major.getD 0, d.minor.getD 0, d.access.toList.filterMap permission⟩ := by
  rw [linuxDeviceCgroupToDeviceResource, h]

/-- The hop leaves the type, the access and the flag alone, so only the numbers count. -/
theorem resource_hop_iff {t : DeviceType} (h : fromChar d.type.toList.head? = some t) :
    linuxDeviceCgroupToDeviceResource fromChar (.from (.from d)) = linuxDeviceCgroupToDeviceResource fromChar d ↔
      (∀ v ∈ d.major, 0 ≤ v) ∧ (∀ v ∈ d.minor, 0 ≤ v) := by
  have hhop : fromChar (LinuxDeviceCgroup.from (.from d)).type.toList.head? = some t := h
  rw [linuxDeviceCgroupToDeviceResource_of_type h, linuxDeviceCgroupToDeviceResource_of_type hhop, Option.some.injEq,
    DeviceResource.mk.injEq, ← positive_iff, ← positive_iff, sameOr_iff_getD, sameOr_iff_getD]
  constructor
  · rintro ⟨-, -, hmajor, hminor, -⟩
    exact ⟨hmajor, hminor⟩
  · rintro ⟨hmajor, hminor⟩
    exact ⟨rfl, rfl, hmajor, hminor, rfl⟩

theorem setDevicesResources_hop_iff (hb : (fromChar (some 'b')).isSome) (hc : (fromChar (some 'c')).isSome)
    (rules : List LinuxDeviceCgroup) (htype : ∀ d ∈ rules, d.type = "b" ∨ d.type = "c") :
    setDevicesResources fromChar ((rules.map Protocols.LinuxDeviceCgroup.from).map LinuxDeviceCgroup.from) =
        setDevicesResources fromChar rules ↔
      ∀ d ∈ rules, (∀ v ∈ d.major, 0 ≤ v) ∧ (∀ v ∈ d.minor, 0 ≤ v) := by
  have hknown : ∀ d ∈ rules, ∃ t, fromChar d.type.toList.head? = some t := by
    intro d hd
    rcases htype d hd with h | h
    · rw [h]
      exact Option.isSome_iff_exists.mp hb
    · rw [h]
      exact Option.isSome_iff_exists.mp hc
  refine filterMap_back_eq_iff ?_ ?_ ?_
  · intro d hd
    obtain ⟨t, ht⟩ := hknown d hd
    rw [ruleResource_of_type (htype d hd), linuxDeviceCgroupToDeviceResource_of_type ht]
    rfl
  · intro d hd
    obtain ⟨t, ht⟩ := hknown d hd
    rw [ruleResource_of_type (d := .from (.from d)) (htype d hd),
      linuxDeviceCgroupToDeviceResource_of_type (d := .from (.from d)) ht]
    rfl
  · intro d hd
    obtain ⟨t, ht⟩ := hknown d hd
    rw [ruleResource_of_type (htype d hd), ruleResource_of_type (d := .from (.from d)) (htype d hd)]
    exact resource_hop_iff ht

end Rules

def wildcard : Int64 := -1

def defaultAllowedDevices : List LinuxDeviceCgroup :=
  [ -- all mknod to all char devices
    { allow := true, type := "c", major := some wildcard, minor := some wildcard, access := "m" },
    -- all mknod to all block devices
    { allow := true, type := "b", major := some wildcard, minor := some wildcard, access := "m" },
    -- all read/write/mknod to char device /dev/console
    { allow := true, type := "c", major := some 5, minor := some 1, access := "rwm" },
    -- all read/write/mknod to char device /dev/pts/<N>
    { allow := true, type := "c", major := some 136, minor := some wildcard, access := "rwm" },
    -- all read/write/mknod to char device /dev/ptmx
    { allow := true, type := "c", major := some 5, minor := some 2, access := "rwm" },
    -- all read/write/mknod to char device /dev/net/tun
    { allow := true, type := "c", major := some 10, minor := some 200, access := "rwm" } ]

/-- The rule for all char devices comes out as a rule for the device 0:0. -/
theorem defaultAllowedDevices_hop :
    setDevicesResources id ((defaultAllowedDevices.map Protocols.LinuxDeviceCgroup.from).map LinuxDeviceCgroup.from) ≠
      setDevicesResources id defaultAllowedDevices := by
  decide

/-- An absent minor number, an absent and a zero one, and the console. -/
def mixedRules : List LinuxDeviceCgroup :=
  [ { allow := true, type := "b", major := some 8, minor := none, access := "rw" },
    { allow := false, type := "c", major := none, minor := some 0, access := "m" },
    { allow := true, type := "c", major := some 5, minor := some 1, access := "rwm" } ]

theorem setDevicesResources_hop_mixed :
    setDevicesResources id ((mixedRules.map Protocols.LinuxDeviceCgroup.from).map LinuxDeviceCgroup.from) =
      setDevicesResources id mixedRules :=
  (setDevicesResources_hop_iff rfl rfl mixedRules (by decide)).mpr (by simp [mixedRules])

end Kata.Cgroups
