import Kata.Lib.Termination

/-!
# Kata.Sandbox.MemoryHotplug

The loop of `updateResources` that brings the memory of the guest to the requested size
(`runtime/virtcontainers/sandbox.go`).

Large amounts are added in steps: with ACPI at most 48 times the memory that is there, with
virtio-mem at most up to `DefaultMaxMemorySize`. The loop ends with the step that asks for the final
size. A step that adds nothing is made again, so that the loop is sure to stop only if the first
step asks for the final size (`hotplugLoop_stops_iff`). If every step before the last adds
something, it stops with ACPI (`stops_of_growth`), but not with virtio-mem for more than the maximum
(`virtioMem_never_stops`).
-/

namespace Kata.Sandbox

open Lib

/-- `acpiMemoryHotplugFactor` -/
def acpiMemoryHotplugFactor : UInt32 := 48

/-- `utils.MibToBytesShift` -/
def mibToBytesShift : UInt64 := 20

structure MemoryDevice where
  sizeMB : Int64
  addr : UInt64

inductive ResizeError where
  | noGuestMemHotplugErr
  | other
deriving DecidableEq

inductive MemoryError where
  | resize
  | memHotplugByProbe
  | onlineCPUMem

/-- What `ResizeMemory` returns, and the total memory of the guest then. -/
structure Resized where
  device : MemoryDevice
  err : Option ResizeError
  total : UInt32

/-- The hypervisor and the agent: what they answer in each round. The hypervisor is told the size,
and what the guest has. -/
structure Env where
  resizeMemory : Nat → (total reqMemMB : UInt32) → Resized
  memHotplugByProbe : Nat → Bool
  onlineCPUMem : Nat → Bool

/-- The settings that the loop reads. -/
structure Config where
  virtioMem : Bool
  defaultMaxMemorySize : UInt64
  guestMemoryHotplugProbe : Bool

structure Guest where
  totalMemoryMB : UInt32
  round : Nat

variable (cfg : Config) (env : Env)

def updateMemory (guest : Guest) (newMemoryMB : UInt32) : Except MemoryError Unit × Guest :=
  let resized := env.resizeMemory guest.round guest.totalMemoryMB newMemoryMB
  let guest' : Guest := ⟨resized.total, guest.round + 1⟩
  if resized.err = some .other then (.error .resize, guest')
  -- `noGuestMemHotplugErr` is only logged
  else if cfg.guestMemoryHotplugProbe && resized.device.addr != 0 && !env.memHotplugByProbe guest.round then
    (.error .memHotplugByProbe, guest')
  else if !env.onlineCPUMem guest.round then (.error .onlineCPUMem, guest')
  else (.ok (), guest')

def maxhotPluggableMemoryMB (currentMemoryMB : UInt32) : UInt32 :=
  if cfg.virtioMem then cfg.defaultMaxMemorySize.toUInt32 - currentMemoryMB
  else currentMemoryMB * acpiMemoryHotplugFactor

def largeHotplug (finalMemoryMB currentMemoryMB : UInt32) : Bool :=
  (finalMemoryMB - currentMemoryMB).toInt32 > (maxhotPluggableMemoryMB cfg currentMemoryMB).toInt32

/-- `newMemoryMB` of a round. -/
def nextMemoryMB (finalMemoryMB currentMemoryMB : UInt32) : UInt32 :=
  if largeHotplug cfg finalMemoryMB currentMemoryMB then
    currentMemoryMB + maxhotPluggableMemoryMB cfg currentMemoryMB
  else finalMemoryMB

def hotplugRound (finalMemoryMB : UInt32) (guest : Guest) : Except MemoryError Guest ⊕ Guest :=
  let newMemoryMB := nextMemoryMB cfg finalMemoryMB guest.totalMemoryMB
  match updateMemory cfg env guest newMemoryMB with
  | (.error e, _) => .inl (.error e)
  | (.ok (), guest) => if newMemoryMB = finalMemoryMB then .inl (.ok guest) else .inr guest

def finalMemoryMB (sandboxMemoryByte : UInt64) : UInt32 := (sandboxMemoryByte >>> mibToBytesShift).toUInt32

/-! ## Hypervisors -/

variable {cfg env}

/-- After an error the guest has what it had, and otherwise anything up to what was asked for. -/
def Env.Admissible (env : Env) : Prop :=
  ∀ round total reqMemMB, let resized := env.resizeMemory round total reqMemMB
    if resized.err = none then
      total ≤ resized.total ∧ resized.total ≤ reqMemMB ∨ reqMemMB ≤ resized.total ∧ resized.total ≤ total
    else resized.total = total

/-- Memory that is asked for is added in part at least, or there is an error that counts. -/
def Env.Grows (env : Env) : Prop :=
  ∀ round total reqMemMB, total < reqMemMB → let resized := env.resizeMemory round total reqMemMB
    resized.err = some .other ∨ resized.err = none ∧ total < resized.total

/-- No hotplug is supported, which is not taken as an error. -/
def unsupported : Env where
  resizeMemory _ total _ := ⟨⟨0, 0⟩, some .noGuestMemHotplugErr, total⟩
  memHotplugByProbe _ := true
  onlineCPUMem _ := true

/-- All that is asked for is given. -/
def granting : Env where
  resizeMemory _ _ reqMemMB := ⟨⟨0, 0⟩, none, reqMemMB⟩
  memHotplugByProbe _ := true
  onlineCPUMem _ := true

theorem unsupported_admissible : unsupported.Admissible := by
  intro round total reqMemMB
  rfl

theorem granting_admissible : granting.Admissible := by
  intro round total reqMemMB
  show _ ∨ _
  rcases UInt32.le_total total reqMemMB with hle | hge
  · exact .inl ⟨hle, UInt32.le_refl _⟩
  · exact .inr ⟨UInt32.le_refl _, hge⟩

theorem granting_grows : granting.Grows := fun _ _ _ h => .inr ⟨rfl, h⟩

/-! ## Rounds -/

variable {final : UInt32} {guest guest' : Guest}

theorem updateMemory_ok {newMemoryMB : UInt32} (h : updateMemory cfg env guest newMemoryMB = (.ok (), guest')) :
    (env.resizeMemory guest.round guest.totalMemoryMB newMemoryMB).err ≠ some .other ∧
      guest' = ⟨(env.resizeMemory guest.round guest.totalMemoryMB newMemoryMB).total, guest.round + 1⟩ := by
  unfold updateMemory at h
  dsimp only at h
  split at h
  · cases h
  · rename_i herr
    refine ⟨herr, ?_⟩
    split at h
    · cases h
    · split at h
      · cases h
      · cases h
        rfl

/-- There is no device to be probed, and the memory is brought online. -/
theorem updateMemory_online {newMemoryMB : UInt32}
    (herr : (env.resizeMemory guest.round guest.totalMemoryMB newMemoryMB).err ≠ some .other)
    (haddr : (env.resizeMemory guest.round guest.totalMemoryMB newMemoryMB).device.addr = 0)
    (honline : env.onlineCPUMem guest.round = true) :
    updateMemory cfg env guest newMemoryMB =
      (.ok (), ⟨(env.resizeMemory guest.round guest.totalMemoryMB newMemoryMB).total, guest.round + 1⟩) := by
  unfold updateMemory
  simp [herr, haddr, honline]

/-- A round that does not end the loop: more was wanted than could be asked for. -/
theorem hotplugRound_next (h : hotplugRound cfg env final guest = .inr guest') :
    largeHotplug cfg final guest.totalMemoryMB = true ∧
      updateMemory cfg env guest (nextMemoryMB cfg final guest.totalMemoryMB) = (.ok (), guest') := by
  unfold hotplugRound at h
  dsimp only at h
  split at h
  · cases h
  · rename_i g hok
    split at h
    · cases h
    · rename_i hne
      cases h
      refine ⟨?_, hok⟩
      by_contra hlarge
      exact hne (if_neg hlarge)

theorem nextMemoryMB_ne (h : largeHotplug cfg final guest.totalMemoryMB = true) :
    nextMemoryMB cfg final guest.totalMemoryMB ≠ final := by
  intro heq
  rw [nextMemoryMB, if_pos h] at heq
  have hdelta : final - guest.totalMemoryMB = maxhotPluggableMemoryMB cfg guest.totalMemoryMB := by
    rw [← heq]
    grind
  rw [largeHotplug, hdelta] at h
  simp at h

theorem hotplugRound_large (h : largeHotplug cfg final guest.totalMemoryMB = true)
    (hok : updateMemory cfg env guest (nextMemoryMB cfg final guest.totalMemoryMB) = (.ok (), guest')) :
    hotplugRound cfg env final guest = .inr guest' := by
  rw [hotplugRound]
  simp only [hok, if_neg (nextMemoryMB_ne h)]

/-! ## The loop -/

theorem stops_of_small (h : largeHotplug cfg final guest.totalMemoryMB = false) :
    Stops (hotplugRound cfg env final) guest := by
  cases hb : hotplugRound cfg env final guest with
  | inl r => exact stops_of_result hb
  | inr guest' =>
    have hlarge := (hotplugRound_next hb).1
    rw [h] at hlarge
    cases hlarge

/-- Without hotplug every round is like the one before. -/
theorem unsupported_never_stops {total : UInt32} (h : largeHotplug cfg final total = true) :
    ¬ Stops (hotplugRound cfg unsupported final) ⟨total, 0⟩ := by
  refine not_stops (I := fun g => g.totalMemoryMB = total) ?_ rfl
  rintro g rfl
  exact ⟨_, hotplugRound_large h (updateMemory_online nofun rfl rfl), rfl⟩

theorem hotplugLoop_stops_iff (cfg : Config) (sandboxMemoryByte : UInt64) (total : UInt32) :
    (∀ env : Env, env.Admissible →
      Stops (hotplugRound cfg env (finalMemoryMB sandboxMemoryByte)) ⟨total, 0⟩) ↔
      largeHotplug cfg (finalMemoryMB sandboxMemoryByte) total = false := by
  constructor
  · intro h
    by_contra hlarge
    rw [Bool.not_eq_false] at hlarge
    exact unsupported_never_stops hlarge (h unsupported unsupported_admissible)
  · intro h env _
    exact stops_of_small h

/-- 16 GiB for a guest with 256 MiB, on a machine without memory hotplug. -/
theorem unsupported_hotplug_repeats :
    unsupported.Admissible ∧
      ¬ Stops (hotplugRound ⟨false, 0, false⟩ unsupported (finalMemoryMB 0x400000000)) ⟨256, 0⟩ :=
  ⟨unsupported_admissible, unsupported_never_stops (by decide)⟩

/-! ## Sizes -/

section Sizes

variable {total : UInt32}

theorem toInt_of_lt {a : UInt32} (h : a.toNat < 2 ^ 31) : a.toInt32.toInt = a.toNat := by
  have hval : a.toInt32.toBitVec.toNat = a.toNat := rfl
  exact BitVec.toInt_eq_toNat_of_lt (by omega)

/-- For sizes that are positive as signed numbers. -/
theorem largeHotplug_iff (hge : total ≤ final) (hfinal : final.toNat < 2 ^ 31)
    (hmax : (maxhotPluggableMemoryMB cfg total).toNat < 2 ^ 31) :
    largeHotplug cfg final total = true ↔
      total.toNat + (maxhotPluggableMemoryMB cfg total).toNat < final.toNat := by
  have hdelta := UInt32.toNat_sub_of_le final total hge
  have hle := UInt32.le_iff_toNat_le.mp hge
  unfold largeHotplug
  rw [decide_eq_true_iff, gt_iff_lt, Int32.lt_iff_toInt_lt, toInt_of_lt hmax, toInt_of_lt (by omega), hdelta]
  omega

theorem maxhotPluggable_virtioMem (hcfg : cfg.virtioMem = true) (hmax : cfg.defaultMaxMemorySize.toNat < 2 ^ 32)
    (hle : total.toNat ≤ cfg.defaultMaxMemorySize.toNat) :
    (maxhotPluggableMemoryMB cfg total).toNat = cfg.defaultMaxMemorySize.toNat - total.toNat := by
  have hval : cfg.defaultMaxMemorySize.toUInt32.toNat = cfg.defaultMaxMemorySize.toNat :=
    (UInt64.toNat_toUInt32 _).trans (Nat.mod_eq_of_lt hmax)
  rw [maxhotPluggableMemoryMB, if_pos hcfg, UInt32.toNat_sub_of_le, hval]
  rw [UInt32.le_iff_toNat_le, hval]
  exact hle

theorem maxhotPluggable_acpi (hcfg : cfg.virtioMem = false) (hlt : total.toNat * 48 < 2 ^ 32) :
    (maxhotPluggableMemoryMB cfg total).toNat = total.toNat * 48 := by
  rw [maxhotPluggableMemoryMB, if_neg (by simp [hcfg]), UInt32.toNat_mul]
  exact Nat.mod_eq_of_lt hlt

theorem nextMemoryMB_large (h : largeHotplug cfg final total = true)
    (hlt : total.toNat + (maxhotPluggableMemoryMB cfg total).toNat < 2 ^ 32) :
    (nextMemoryMB cfg final total).toNat = total.toNat + (maxhotPluggableMemoryMB cfg total).toNat := by
  rw [nextMemoryMB, if_pos h, UInt32.toNat_add, Nat.mod_eq_of_lt hlt]

/-- Beyond the maximum of virtio-mem every round asks for the maximum again, even if it is given. -/
theorem virtioMem_never_stops (hcfg : cfg.virtioMem = true) (hfinal : final.toNat < 2 ^ 31)
    (hmax : cfg.defaultMaxMemorySize.toNat < final.toNat) (hle : total.toNat ≤ cfg.defaultMaxMemorySize.toNat) :
    ∃ env : Env, env.Admissible ∧ env.Grows ∧ ¬ Stops (hotplugRound cfg env final) ⟨total, 0⟩ := by
  refine ⟨granting, granting_admissible, granting_grows, ?_⟩
  refine not_stops (I := fun g => g.totalMemoryMB.toNat ≤ cfg.defaultMaxMemorySize.toNat) ?_ hle
  intro g hg
  have hstep := maxhotPluggable_virtioMem hcfg (by omega) hg
  have hlarge : largeHotplug cfg final g.totalMemoryMB = true := by
    rw [largeHotplug_iff (UInt32.le_iff_toNat_le.mpr (by omega)) hfinal (by omega)]
    omega
  refine ⟨_, hotplugRound_large hlarge (updateMemory_online nofun rfl rfl), ?_⟩
  show (nextMemoryMB cfg final g.totalMemoryMB).toNat ≤ _
  rw [nextMemoryMB_large hlarge (by omega)]
  omega

theorem one_gib_never_stops : ∃ env : Env, env.Admissible ∧ env.Grows ∧
    ¬ Stops (hotplugRound ⟨true, 1024, false⟩ env 2048) ⟨256, 0⟩ :=
  virtioMem_never_stops rfl (by decide) (by decide) (by decide)

/-- With ACPI the rounds lead to the target, up to 42 TiB. -/
theorem stops_of_growth (henv : env.Admissible) (hgrows : env.Grows) (hcfg : cfg.virtioMem = false)
    (hfinal : final.toNat * 48 < 2 ^ 31) (hpos : 0 < total.toNat) (hle : total ≤ final) :
    Stops (hotplugRound cfg env final) ⟨total, 0⟩ := by
  -- what is missing gets smaller
  refine stops_of_measure (I := fun g => 0 < g.totalMemoryMB.toNat ∧ g.totalMemoryMB.toNat ≤ final.toNat)
    (fun g => final.toNat - g.totalMemoryMB.toNat) ?_ ⟨hpos, UInt32.le_iff_toNat_le.mp hle⟩
  rintro g g' ⟨hgpos, hgle⟩ hround
  obtain ⟨hlarge, hok⟩ := hotplugRound_next hround
  obtain ⟨herr, rfl⟩ := updateMemory_ok hok
  have hsmall : g.totalMemoryMB.toNat * 48 < 2 ^ 31 := by omega
  have hstep := maxhotPluggable_acpi hcfg (Nat.lt_trans hsmall (by decide))
  have hlt := (largeHotplug_iff (UInt32.le_iff_toNat_le.mpr hgle) (by omega) (by omega)).mp hlarge
  have hnext := nextMemoryMB_large hlarge (by omega)
  have hmore : g.totalMemoryMB < nextMemoryMB cfg final g.totalMemoryMB := UInt32.lt_iff_toNat_lt.mpr (by omega)
  rcases hgrows g.round _ _ hmore with hother | ⟨hnone, hgrown⟩
  · exact absurd hother herr
  · have hbound := henv g.round g.totalMemoryMB (nextMemoryMB cfg final g.totalMemoryMB)
    dsimp only at hbound
    rw [if_pos hnone] at hbound
    simp only [UInt32.le_iff_toNat_le, UInt32.lt_iff_toNat_lt] at hbound hgrown hmore
    dsimp only
    omega

theorem sixteen_gib_granted : Stops (hotplugRound ⟨false, 0, false⟩ granting 16384) ⟨256, 0⟩ :=
  stops_of_growth granting_admissible granting_grows rfl (by decide) (by decide) (by decide)

end Sizes

end Kata.Sandbox
