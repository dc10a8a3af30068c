import Kata.Agent.Devices
import Kata.Lib.Outcome
import Mathlib.Data.List.Forall2
import Mathlib.Data.List.Nodup

/-!
# Kata.Agent.DeviceRules

The device rules after `add_devices`. The rules for the guest's devices are put into the list before
the host's numbers in it are replaced by the guest's, so a rule for a guest device whose numbers are
those of another device on the host is renamed once more (`second_renaming`).

`addDevices_rules_iff`: the rules are the original ones, each renamed once, followed by the rules
for the guest's devices, if and only if no guest device has the type and the numbers that a passed
device has on the host, other than a device that has the same numbers on both sides.
-/

namespace Kata.Agent

open Oci Lib

variable {Address : Type}

/-! ## What should happen -/

/-- The updates that the handlers have asked for, by the path in the container. -/
def passedUpdates (devices : List (Device × Except String (SpecUpdate Address))) : List (String × DevUpdate) :=
  devices.filterMap fun (device, outcome) =>
    match outcome with
    | .error _ => none
    | .ok update => update.dev.map fun devUpdate => (device.containerPath, devUpdate)

/-- The device of the specification that is known under a path: the first one. -/
def hostDevice (devices : List LinuxDevice) (path : String) : Option LinuxDevice :=
  devices.find? (·.path = path)

/-- A passed device has the key on the host and the numbers `info` in the guest. -/
def Passed (devices : List LinuxDevice) (updates : List (String × DevUpdate)) (key : HostKey) (info : DeviceInfo) :
    Prop :=
  ∃ path update specdev, (path, update) ∈ updates ∧ hostDevice devices path = some specdev ∧
    LinuxDevice.hostKey specdev = key ∧ update.info = info

def specDevices (spec : Spec) : List LinuxDevice := spec.linux.elim [] (·.devices)

def specRules (spec : Spec) : List LinuxDeviceCgroup :=
  (spec.linux.bind (·.resources)).elim [] (·.devices)

def allowRule (info : DeviceInfo) : LinuxDeviceCgroup where
  allow := true
  type := info.cgroupType
  major := some info.guestMajor
  minor := some info.guestMinor
  access := "rwm"

/-- `r'` is the rule `r` with the guest's numbers in the place of the host's, if it is a rule for a
passed device. -/
structure Renamed (passed : HostKey → DeviceInfo → Prop) (r r' : LinuxDeviceCgroup) : Prop where
  guest : ∀ major minor info, r.major = some major → r.minor = some minor → passed (r.type, major, minor) info →
    r' = { r with major := some info.guestMajor, minor := some info.guestMinor }
  other : (∀ major minor info, r.major = some major → r.minor = some minor → ¬ passed (r.type, major, minor) info) →
    r' = r

/-! ## The rules for the guest's devices -/

/-- What the loop over the devices has done to the specification and to the updates. -/
structure Entered (st st' : Progress Address) (entered : List (String × DevUpdate)) : Prop where
  devices : specDevices st'.spec = specDevices st.spec
  rules : specRules st'.spec = specRules st.spec ++ entered.map fun u => allowRule u.2.info
  devUpdates : st'.devUpdates = st.devUpdates ++ entered
  distinct : (st.devUpdates.map (·.1)).Nodup → (st'.devUpdates.map (·.1)).Nodup

theorem Entered.nothing (st : Progress Address) : Entered st st [] where
  devices := rfl
  rules := (List.append_nil _).symm
  devUpdates := (List.append_nil _).symm
  distinct := id

theorem Entered.trans {st st1 st2 : Progress Address} {a b : List (String × DevUpdate)} (h : Entered st st1 a)
    (h' : Entered st1 st2 b) : Entered st st2 (a ++ b) where
  devices := h'.devices.trans h.devices
  rules := by rw [h'.rules, h.rules, List.map_append, List.append_assoc]
  devUpdates := by rw [h'.devUpdates, h.devUpdates, List.append_assoc]
  distinct := fun hd => h'.distinct (h.distinct hd)

variable {spec spec' : Spec}

theorem insertDevicesCgroupRule_ok {info : DeviceInfo}
    (h : (insertDevicesCgroupRule spec info true "rwm" : Except (DeviceError Address) Spec) = .ok spec') :
    specDevices spec' = specDevices spec ∧ specRules spec' = specRules spec ++ [allowRule info] := by
  unfold insertDevicesCgroupRule at h
  cases hl : spec.linux with
  | none =>
    rw [hl] at h
    cases h
  | some linux =>
    rw [hl] at h
    cases h
    refine ⟨by rw [specDevices, specDevices, hl]; rfl, ?_⟩
    simp only [specRules, hl, Option.bind_some]
    cases linux.resources with
    | none | some resources => rfl

variable [DecidableEq Address]

variable {updates : List (String × DevUpdate)} {path : String}

theorem not_mem_of_lookup_none (h : updates.lookup path = none) : path ∉ updates.map (·.1) := by
  intro hmem
  obtain ⟨u, hu, hpath⟩ := List.mem_map.mp hmem
  have hne := List.lookup_eq_none_iff.mp h u hu
  rw [hpath] at hne
  simp at hne

variable {st st' : Progress Address}

theorem enterDevice_entered {update : DevUpdate}
    {pci : List (Address × Address)} (h : enterDevice st path update pci = .ok st') :
    Entered st st' [(path, update)] := by
  unfold enterDevice at h
  cases hl : st.devUpdates.lookup path with
  | some _ =>
    rw [hl] at h
    cases h
  | none =>
    rw [hl] at h
    obtain ⟨pcimap, _, h⟩ := bind_eq_ok.mp h
    obtain ⟨spec, hinsert, h⟩ := bind_eq_ok.mp h
    cases h
    obtain ⟨hdevices, hrules⟩ := insertDevicesCgroupRule_ok hinsert
    refine ⟨hdevices, hrules, rfl, fun hd => ?_⟩
    rw [List.map_append, List.nodup_append]
    refine ⟨hd, List.nodup_singleton _, fun a ha b hb => ?_⟩
    cases List.mem_singleton.mp hb
    intro heq
    rw [heq] at ha
    exact not_mem_of_lookup_none hl ha

theorem addOne_entered {device : Device} {outcome : Except String (SpecUpdate Address)}
    (h : addOne st device outcome = .ok st') : Entered st st' (passedUpdates [(device, outcome)]) := by
  obtain ⟨update, hadd, h⟩ := bind_eq_ok.mp h
  have houtcome : outcome = .ok update := by
    unfold addDevice at hadd
    split at hadd
    · cases hadd
    · split at hadd
      · cases hadd
      · split at hadd
        · cases hadd
        · split at hadd
          · exact of_mapError_ok hadd
          · cases hadd
  rw [houtcome]
  cases hdev : update.dev with
  | none =>
    rw [hdev] at h
    cases h
    simp only [passedUpdates, List.filterMap_cons, List.filterMap_nil, hdev, Option.map_none]
    exact .nothing st
  | some devUpdate =>
    rw [hdev] at h
    simp only [passedUpdates, List.filterMap_cons, List.filterMap_nil, hdev, Option.map_some]
    exact enterDevice_entered h

variable {devices : List (Device × Except String (SpecUpdate Address))}

theorem addAll_entered (h : addAll st devices = .ok st') : Entered st st' (passedUpdates devices) := by
  induction devices generalizing st with
  | nil =>
    cases h
    exact .nothing _
  | cons d devices ih =>
    obtain ⟨st1, hone, h⟩ := bind_eq_ok.mp h
    have hsplit : passedUpdates (d :: devices) = passedUpdates [d] ++ passedUpdates devices :=
      List.filterMap_append (l := [d])
    rw [hsplit]
    exact (addOne_entered hone).trans (ih h)

/-! ## The numbers of the host -/

section Numbers

variable {devices devices' : List LinuxDevice} {updates updates' : List (String × DevUpdate)}
  {resUpdates resUpdates' : List (HostKey × DeviceInfo)} {specdev : LinuxDevice}

theorem hostDevice_cons_of_ne {path : String} (h : specdev.path ≠ path) :
    hostDevice (specdev :: devices) path = hostDevice devices path := by
  rw [hostDevice, List.find?_cons_of_neg (by simpa using h)]
  rfl

theorem hostDevice_cons_self : hostDevice (specdev :: devices) specdev.path = some specdev := by
  rw [hostDevice, List.find?_cons_of_pos (by simp)]

/-- A device without an update does not count. -/
theorem passed_cons_of_none (h : updates.lookup specdev.path = none) (key : HostKey) (info : DeviceInfo) :
    Passed (specdev :: devices) updates key info ↔ Passed devices updates key info := by
  have hne : ∀ {path update}, (path, update) ∈ updates → specdev.path ≠ path := by
    intro path update hmem heq
    exact not_mem_of_lookup_none h (heq ▸ List.mem_map_of_mem hmem)
  constructor
  · rintro ⟨path, update, d, hmem, hfound, hkey, hinfo⟩
    rw [hostDevice_cons_of_ne (hne hmem)] at hfound
    exact ⟨path, update, d, hmem, hfound, hkey, hinfo⟩
  · rintro ⟨path, update, d, hmem, hfound, hkey, hinfo⟩
    rw [← hostDevice_cons_of_ne (hne hmem)] at hfound
    exact ⟨path, update, d, hmem, hfound, hkey, hinfo⟩

theorem passed_cons_of_some {update : DevUpdate} (hd : (updates.map (·.1)).Nodup)
    (h : updates.lookup specdev.path = some update) (key : HostKey) (info : DeviceInfo) :
    Passed (specdev :: devices) updates key info ↔
      LinuxDevice.hostKey specdev = key ∧ update.info = info ∨
        Passed devices (updates.filter (·.1 ≠ specdev.path)) key info := by
  have hmem : (specdev.path, update) ∈ updates := by
    obtain ⟨l, r, heq, -⟩ := List.lookup_eq_some_iff.mp h
    rw [heq]
    exact List.mem_append_right l List.mem_cons_self
  have huniq : ∀ {update'}, (specdev.path, update') ∈ updates → update' = update := fun h' =>
    congrArg Prod.snd (List.inj_on_of_nodup_map hd h' hmem rfl)
  constructor
  · rintro ⟨path, update', d, hmem', hfound, hkey, hinfo⟩
    by_cases hpath : specdev.path = path
    · subst hpath
      rw [hostDevice_cons_self] at hfound
      cases hfound
      exact .inl ⟨hkey, huniq hmem' ▸ hinfo⟩
    · rw [hostDevice_cons_of_ne hpath] at hfound
      exact .inr ⟨path, update', d, List.mem_filter.mpr ⟨hmem', by simpa using Ne.symm hpath⟩, hfound, hkey, hinfo⟩
  · rintro (⟨hkey, hinfo⟩ | ⟨path, update', d, hmem', hfound, hkey, hinfo⟩)
    · exact ⟨specdev.path, update, specdev, hmem, hostDevice_cons_self, hkey, hinfo⟩
    · obtain ⟨hmem', hne⟩ := List.mem_filter.mp hmem'
      have hpath : specdev.path ≠ path := Ne.symm (by simpa using hne)
      rw [← hostDevice_cons_of_ne hpath] at hfound
      exact ⟨path, update', d, hmem', hfound, hkey, hinfo⟩

theorem lookup_cons_iff {key key' : HostKey} {info info' : DeviceInfo} (h : resUpdates.lookup key = none) :
    ((key, info) :: resUpdates).lookup key' = some info' ↔
      key = key' ∧ info = info' ∨ resUpdates.lookup key' = some info' := by
  rw [List.lookup_cons]
  by_cases hkey : key' = key
  · subst hkey
    simp [h]
  · rw [beq_false_of_ne hkey]
    simp [Ne.symm hkey]

theorem updateDevices_passed (hd : (updates.map (·.1)).Nodup)
    (h : (updateDevices devices updates resUpdates : Except (DeviceError Address) _) =
      .ok (devices', updates', resUpdates')) (key : HostKey) (info : DeviceInfo) :
    resUpdates'.lookup key = some info ↔ resUpdates.lookup key = some info ∨ Passed devices updates key info := by
  induction devices generalizing updates resUpdates devices' with
  | nil =>
    cases h
    refine ⟨.inl, fun h => h.resolve_right ?_⟩
    rintro ⟨path, update, d, -, hfound, -⟩
    cases hfound
  | cons specdev devices ih =>
    unfold updateDevices at h
    cases hl : updates.lookup specdev.path with
    | none =>
      rw [hl] at h
      obtain ⟨⟨ds, us, rs⟩, hrest, hout⟩ := bind_eq_ok.mp h
      cases hout
      rw [ih hd hrest, passed_cons_of_none hl]
    | some update =>
      rw [hl] at h
      dsimp only at h
      cases hr : resUpdates.lookup (LinuxDevice.hostKey specdev) with
      | some _ =>
        rw [hr] at h
        cases h
      | none =>
        rw [hr] at h
        obtain ⟨⟨ds, us, rs⟩, hrest, hout⟩ := bind_eq_ok.mp h
        cases hout
        have hd' : ((updates.filter (·.1 ≠ specdev.path)).map (·.1)).Nodup :=
          hd.sublist (List.filter_sublist.map _)
        rw [ih hd' hrest, lookup_cons_iff hr, passed_cons_of_some hd hl, or_assoc, or_left_comm]

end Numbers

/-! ## The rules -/

section Rules

variable {passed : HostKey → DeviceInfo → Prop} {resUpdates : List (HostKey × DeviceInfo)}
  {r r' : LinuxDeviceCgroup} {info : DeviceInfo}

theorem updateRule_renamed (h : ∀ key info, resUpdates.lookup key = some info ↔ passed key info)
    (r : LinuxDeviceCgroup) : Renamed passed r (updateRule resUpdates r) := by
  cases hmajor : r.major with
  | none =>
    have hself : updateRule resUpdates r = r := by rw [updateRule, hmajor]
    rw [hself]
    refine ⟨fun major minor info h1 => ?_, fun _ => rfl⟩
    rw [hmajor] at h1
    cases h1
  | some major =>
    cases hminor : r.minor with
    | none =>
      have hself : updateRule resUpdates r = r := by rw [updateRule, hmajor, hminor]
      rw [hself]
      refine ⟨fun major minor info _ h2 => ?_, fun _ => rfl⟩
      rw [hminor] at h2
      cases h2
    | some minor =>
      cases hl : resUpdates.lookup (r.type, major, minor) with
      | none =>
        have hself : updateRule resUpdates r = r := by simp only [updateRule, hmajor, hminor, hl]
        rw [hself]
        refine ⟨fun major' minor' info h1 h2 hp => ?_, fun _ => rfl⟩
        rw [hmajor] at h1
        rw [hminor] at h2
        cases h1
        cases h2
        rw [(h _ _).mpr hp] at hl
        cases hl
      | some info =>
        have hnew : updateRule resUpdates r =
            { r with major := some info.guestMajor, minor := some info.guestMinor } := by
          simp only [updateRule, hmajor, hminor, hl]
        rw [hnew]
        refine ⟨fun major' minor' info' h1 h2 hp => ?_, fun hno => ?_⟩
        · rw [hmajor] at h1
          rw [hminor] at h2
          cases h1
          cases h2
          rw [(h _ _).mpr hp] at hl
          cases hl
          rfl
        · exact absurd ((h _ _).mp hl) (hno major minor info hmajor hminor)

/-- A rule can be renamed in one way only, as long as a key stands for one device. -/
theorem Renamed.unique {r1 r2 : LinuxDeviceCgroup} (h1 : Renamed passed r r1)
    (h2 : Renamed passed r r2) : r1 = r2 := by
  by_cases h : ∃ major minor info, r.major = some major ∧ r.minor = some minor ∧ passed (r.type, major, minor) info
  · obtain ⟨major, minor, info, hmajor, hminor, hp⟩ := h
    rw [h1.guest major minor info hmajor hminor hp, h2.guest major minor info hmajor hminor hp]
  · have hno : ∀ major minor info, r.major = some major → r.minor = some minor → ¬ passed
        (r.type, major, minor) info :=
      fun major minor info hmajor hminor hp => h ⟨major, minor, info, hmajor, hminor, hp⟩
    rw [h1.other hno, h2.other hno]

theorem renamed_allowRule_iff :
    Renamed passed (allowRule info) (allowRule info) ↔
      ∀ other, passed (info.cgroupType, info.guestMajor, info.guestMinor) other →
        other.guestMajor = info.guestMajor ∧ other.guestMinor = info.guestMinor := by
  constructor
  · intro h other hp
    have heq := h.guest _ _ other rfl rfl hp
    have hmajor := congrArg LinuxDeviceCgroup.major heq
    have hminor := congrArg LinuxDeviceCgroup.minor heq
    exact ⟨(Option.some.inj hmajor).symm, (Option.some.inj hminor).symm⟩
  · intro h
    refine ⟨fun major minor other h1 h2 hp => ?_, fun _ => rfl⟩
    cases h1
    cases h2
    obtain ⟨hmajor, hminor⟩ := h other hp
    rw [hmajor, hminor]
    rfl

theorem forall₂_renamed_iff (h : ∀ key info, resUpdates.lookup key = some info ↔ passed key info)
    {rules rules' : List LinuxDeviceCgroup} :
    List.Forall₂ (Renamed passed) rules rules' ↔ rules' = rules.map (updateRule resUpdates) := by
  induction rules generalizing rules' with
  | nil => rw [List.forall₂_nil_left_iff, List.map_nil]
  | cons r rules ih =>
    rw [List.forall₂_cons_left_iff]
    constructor
    · rintro ⟨r', rest, hr, hrest, rfl⟩
      rw [List.map_cons, ih.mp hrest, hr.unique (updateRule_renamed h r)]
    · intro heq
      exact ⟨_, _, updateRule_renamed h r, ih.mpr rfl, heq⟩

end Rules

/-! ## Putting it together -/

variable {updateEnvPci : List String → List (Address × Address) → Except String (List String)}

variable {pcimap : List (Address × Address)}

theorem updateProcess_linux (h : updateProcess updateEnvPci spec pcimap = .ok spec') : spec'.linux = spec.linux := by
  unfold updateProcess at h
  split at h
  · cases h
    rfl
  · split at h
    · cases h
    · cases h
      rfl

theorem updateSpecDevices_rules (hd : (updates.map (·.1)).Nodup)
    (h : (updateSpecDevices spec updates : Except (DeviceError Address) Spec) = .ok spec') :
    ∃ resUpdates, specRules spec' = (specRules spec).map (updateRule resUpdates) ∧
      ∀ key info, resUpdates.lookup key = some info ↔ Passed (specDevices spec) updates key info := by
  unfold updateSpecDevices at h
  cases hl : spec.linux with
  | none =>
    rw [hl] at h
    cases h
  | some linux =>
    rw [hl] at h
    obtain ⟨⟨devices, rest, resUpdates⟩, hloop, h⟩ := bind_eq_ok.mp h
    dsimp only at h
    split at h
    · cases h
      refine ⟨resUpdates, ?_, fun key info => ?_⟩
      · simp only [specRules, hl, Option.bind_some]
        cases linux.resources with
        | none | some resources => rfl
      · rw [updateDevices_passed hd hloop, specDevices, hl]
        exact ⟨fun h => h.resolve_left nofun, .inr⟩
    · cases h

theorem addDevices_rules (h : addDevices updateEnvPci devices spec pcimap = .ok spec') :
    ∃ resUpdates,
      specRules spec' =
        (specRules spec ++ (passedUpdates devices).map fun u => allowRule u.2.info).map (updateRule resUpdates) ∧
      ∀ key info, resUpdates.lookup key = some info ↔
        Passed (specDevices spec) (passedUpdates devices) key info := by
  obtain ⟨st, hall, h⟩ := bind_eq_ok.mp h
  obtain ⟨spec1, hprocess, h⟩ := bind_eq_ok.mp h
  have hentered := addAll_entered hall
  have hlinux := updateProcess_linux hprocess
  have hupdates : st.devUpdates = passedUpdates devices := hentered.devUpdates
  have hrules1 : specRules spec1 = specRules st.spec := by rw [specRules, specRules, hlinux]
  have hdevices1 : specDevices spec1 = specDevices st.spec := by rw [specDevices, specDevices, hlinux]
  obtain ⟨resUpdates, hrules, hpassed⟩ := updateSpecDevices_rules (hentered.distinct List.nodup_nil) h
  refine ⟨resUpdates, ?_, fun key info => ?_⟩
  · rw [hrules, hrules1, hentered.rules]
  · rw [hpassed, hdevices1, hentered.devices, hupdates]

theorem addDevices_rules_iff (updateEnvPci : List String → List (Address × Address) → Except String (List String))
    (devices : List (Device × Except String (SpecUpdate Address))) (spec spec' : Spec)
    (pcimap : List (Address × Address)) (h : addDevices updateEnvPci devices spec pcimap = .ok spec') :
    ((∀ u ∈ passedUpdates devices, allowRule u.2.info ∈ specRules spec') ∧
        ∃ renamed,
          List.Forall₂ (Renamed (Passed (specDevices spec) (passedUpdates devices))) (specRules spec) renamed ∧
          specRules spec' = renamed ++ (passedUpdates devices).map fun u => allowRule u.2.info) ↔
      ∀ u ∈ passedUpdates devices, ∀ other,
        Passed (specDevices spec) (passedUpdates devices)
            (u.2.info.cgroupType, u.2.info.guestMajor, u.2.info.guestMinor) other →
          other.guestMajor = u.2.info.guestMajor ∧ other.guestMinor = u.2.info.guestMinor := by
  obtain ⟨resUpdates, hrules, hpassed⟩ := addDevices_rules h
  have hfix : ∀ info : DeviceInfo, updateRule resUpdates (allowRule info) = allowRule info ↔
      ∀ other, Passed (specDevices spec) (passedUpdates devices)
          (info.cgroupType, info.guestMajor, info.guestMinor) other →
        other.guestMajor = info.guestMajor ∧ other.guestMinor = info.guestMinor := by
    intro info
    rw [← renamed_allowRule_iff]
    constructor
    · intro heq
      have hr := updateRule_renamed hpassed (allowRule info)
      rwa [heq] at hr
    · intro hr
      exact (updateRule_renamed hpassed _).unique hr
  constructor
  · rintro ⟨-, renamed, hren, heq⟩ u hu
    rw [(forall₂_renamed_iff hpassed).mp hren, hrules, List.map_append, List.append_right_inj, List.map_map] at heq
    exact (hfix u.2.info).mp (List.map_inj_left.mp heq u hu)
  · intro hcond
    have hinserted : ((passedUpdates devices).map fun u => allowRule u.2.info).map (updateRule resUpdates) =
        (passedUpdates devices).map fun u => allowRule u.2.info := by
      rw [List.map_map]
      exact List.map_inj_left.mpr fun u hu => (hfix u.2.info).mpr (hcond u hu)
    have heq : specRules spec' = (specRules spec).map (updateRule resUpdates) ++
        (passedUpdates devices).map fun u => allowRule u.2.info := by
      rw [hrules, List.map_append, hinserted]
    refine ⟨fun u hu => ?_, _, (forall₂_renamed_iff hpassed).mpr rfl, heq⟩
    rw [heq]
    exact List.mem_append_right _ (List.mem_map_of_mem hu)

/-! ## Two devices -/

def charDevice (path : String) (major minor : Int64) : LinuxDevice :=
  { path := path, type := "c", major := major, minor := minor, fileMode := none, uid := none, gid := none }

/-- The devices 1:3 and 1:5 of the host, each with a rule. -/
def twoDevices : Spec :=
  { linux := some
      { devices := [charDevice "/dev/a" 1 3, charDevice "/dev/b" 1 5]
        resources := some
          { devices :=
              [{ type := "c", major := some 1, minor := some 3 },
                { type := "c", major := some 1, minor := some 5 }] } } }

def passDevice (path : String) (major minor : Int64) : Device × Except String (SpecUpdate Nat) :=
  ({ id := "", type := "vfio-pci-gk", vmPath := path, containerPath := path },
    .ok { dev := some { info := { cgroupType := "c", guestMajor := major, guestMinor := minor } } })

def keepEnv (env : List String) (_ : List (Nat × Nat)) : Except String (List String) := .ok env

/-- In the guest they are 1:5 and 1:7. The rule for 1:5 of the guest is taken for one of the host,
so no rule allows the first device. -/
theorem second_renaming :
    ∃ spec', addDevices keepEnv [passDevice "/dev/a" 1 5, passDevice "/dev/b" 1 7] twoDevices [] = .ok spec' ∧
      specRules spec' =
        [{ type := "c", major := some 1, minor := some 5 }, { type := "c", major := some 1, minor := some 7 },
          allowRule ⟨"c", 1, 7⟩, allowRule ⟨"c", 1, 7⟩] ∧
      allowRule ⟨"c", 1, 5⟩ ∉ specRules spec' :=
  ⟨_, rfl, by decide, by decide⟩

theorem addDevices_rules_twoDevices :
    ∃ spec', addDevices keepEnv [passDevice "/dev/a" 254 0, passDevice "/dev/b" 254 1] twoDevices [] = .ok spec' ∧
      allowRule ⟨"c", 254, 0⟩ ∈ specRules spec' ∧ allowRule ⟨"c", 254, 1⟩ ∈ specRules spec' := by
  have hupdates : passedUpdates [passDevice "/dev/a" 254 0, passDevice "/dev/b" 254 1] =
      [("/dev/a", ⟨⟨"c", 254, 0⟩, none⟩), ("/dev/b", ⟨⟨"c", 254, 1⟩, none⟩)] := rfl
  have hkeys : ∀ key info, Passed (specDevices twoDevices)
      (passedUpdates [passDevice "/dev/a" 254 0, passDevice "/dev/b" 254 1]) key info →
      key = ("c", 1, 3) ∨ key = ("c", 1, 5) := by
    rintro key info ⟨path, update, d, hmem, hfound, rfl, -⟩
    rw [hupdates] at hmem
    rcases List.mem_cons.mp hmem with h | h
    · cases h
      cases hfound
      exact .inl rfl
    · cases List.mem_singleton.mp h
      cases hfound
      exact .inr rfl
  obtain ⟨hallow, -⟩ := (addDevices_rules_iff keepEnv [passDevice "/dev/a" 254 0,
    passDevice "/dev/b" 254 1] twoDevices
    _ [] rfl).mpr fun u hu other hp => by
      rw [hupdates] at hu
      rcases List.mem_cons.mp hu with h | h
      · cases h
        rcases hkeys _ _ hp with h | h <;> exact absurd h (by decide)
      · cases List.mem_singleton.mp h
        rcases hkeys _ _ hp with h | h <;> exact absurd h (by decide)
  exact ⟨_, rfl, hallow _ List.mem_cons_self, hallow _ (List.mem_cons_of_mem _ List.mem_cons_self)⟩

end Kata.Agent
