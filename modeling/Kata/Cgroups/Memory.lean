import Kata.Lib.Traced
import Kata.Oci.Spec

/-!
# Kata.Cgroups.Memory

How the memory limits of a container reach its cgroup: `set_memory_resources` of the cgroupfs driver
(`rustjail/src/cgroups/fs/mod.rs`) makes calls to the memory controller, `unified_apply` of the
systemd driver (`rustjail/src/cgroups/systemd/subsystem/memory.rs`) collects properties.

In the OCI specification `swap` is memory and swap together, on cgroup v2 it is swap alone, so that
`swap - limit` has to be set. `swap_v2_never` says that the cgroupfs driver never does so when a
limit is given: it converts in the branch without a limit only. The systemd driver subtracts the
other way around.

The controller, the kernel behind it and the statistics are a parameter (`Cgroup`).
-/

namespace Kata.Cgroups

open Lib Oci

/-! ## The cgroupfs driver -/

inductive MemCall where
  | setKmemLimit (limit : Int64)
  | setLimit (limit : Int64)
  | setMemswapLimit (limit : Int64)
  | setSoftLimit (limit : Int64)
  | setTcpLimit (limit : Int64)
  | setSwappiness (swap : UInt64)
  | disableOomKiller
deriving DecidableEq

structure Cgroup where
  v2 : Bool
  /-- The answer of the controller to a call, after the calls before it. -/
  answer : List MemCall → MemCall → Except String Unit
  /-- The limit in the memory statistics (`memusage.limit()`), if there are any. -/
  memoryStats : List MemCall → Option UInt64

abbrev MemM := Traced String MemCall

variable (cg : Cgroup)

def setResource (func : Int64 → MemCall) (field : Option Int64) : MemM Unit :=
  let resourceValue := field.getD 0
  if resourceValue ≠ 0 then Traced.call cg.answer (func resourceValue) else pure ()

def convertMemorySwapToV2Value (memorySwap memory : Int64) : Except String Int64 :=
  if memory = -1 ∧ memorySwap = 0 then .ok (-1)
  else if memorySwap = -1 ∨ memorySwap = 0 then .ok memorySwap
  else if memory = 0 ∨ memory = -1 then .error "unable to set swap limit without memory limit"
  else if memory < 0 then .error s!"invalid memory value: {memory}"
  else if memorySwap < memory then .error "memory+swap limit should be >= memory limit"
  else .ok (memorySwap - memory)

def initKmemLimits (update : Bool) : MemM Unit :=
  if update then pure ()
  else do
    Traced.call cg.answer (.setKmemLimit 1)
    Traced.call cg.answer (.setKmemLimit (-1))

variable (memory : LinuxMemory)

/-- The swap that is asked for, before any conversion. -/
def requestedSwap : Int64 :=
  if memory.limit = some (-1) then -1 else memory.swap.getD 0

def setLimitAndSwap (swap : Int64) (usageLimit : UInt64) : MemM Unit :=
  if swap = -1 ∨ usageLimit < swap.toUInt64 then do
    Traced.call cg.answer (.setMemswapLimit swap)
    setResource cg .setLimit memory.limit
  else do
    setResource cg .setLimit memory.limit
    Traced.call cg.answer (.setMemswapLimit swap)

def swapToSet (swap : Int64) : Except String Int64 :=
  if cg.v2 then convertMemorySwapToV2Value swap (memory.limit.getD 0) else .ok swap

def setSwap (swap : Int64) : MemM Unit :=
  match swapToSet cg memory swap with
  | .error e => Traced.throw e
  | .ok swap => if swap ≠ 0 then Traced.call cg.answer (.setMemswapLimit swap) else pure ()

def setMemory (swap : Int64) : MemM Unit :=
  if memory.limit.isSome ∧ swap ≠ 0 then do
    match ← Traced.ask cg.memoryStats with
    | none => Traced.throw "failed to get the cgroup memory stats"
    | some usageLimit => setLimitAndSwap cg memory swap usageLimit
  else do
    setResource cg .setLimit memory.limit
    setSwap cg memory swap

def setSwappiness : Option UInt64 → MemM Unit
  | none => pure ()
  | some swappiness =>
    if 0 ≤ swappiness ∧ swappiness ≤ 100 then Traced.call cg.answer (.setSwappiness swappiness)
    else Traced.throw s!"invalid value:{swappiness}. valid memory swappiness range is 0-100"

def disableOomKiller (disable : Bool) : MemM Unit :=
  if disable then Traced.call cg.answer .disableOomKiller else pure ()

def setMemoryResources (update : Bool) : MemM Unit := do
  initKmemLimits cg update
  setMemory cg memory (requestedSwap memory)
  setResource cg .setSoftLimit memory.reservation
  setResource cg .setKmemLimit memory.kernel
  setResource cg .setTcpLimit memory.kernelTcp
  setSwappiness cg memory.swappiness
  disableOomKiller cg (memory.disableOomKiller.getD false)

/-! ## The systemd driver -/

-- The properties that were pushed before an error stay in the list.
abbrev PropM := Traced String (String × UInt64)

def push (name : String) (value : UInt64) : PropM Unit := Traced.call (fun _ _ => .ok ()) (name, value)

def u64Max : UInt64 := 0xFFFFFFFFFFFFFFFF

def pushLimit (name field : String) : Option Int64 → PropM Unit
  | none => pure ()
  | some limit =>
    if 1 ≤ limit then push name limit.toUInt64
    else if limit = 0 then push name u64Max
    else Traced.throw s!"invalid {field}: {limit}"

def memorySwapMax : Except String UInt64 :=
  match memory.swap with
  | none => .ok u64Max
  | some swap =>
    if swap = 0 then .ok u64Max
    else if 1 ≤ swap then
      match memory.limit with
      | none => .error "invalid memory.limit when memory.swap specified"
      | some limit =>
        -- Both are positive here, so the subtraction does not overflow.
        if 1 ≤ limit then .ok (limit - swap).toUInt64
        else .error "invalid memory.limit when memory.swap specified"
    else .error "invalid memory.swap"

def pushSwapMax : PropM Unit :=
  match memorySwapMax memory with
  | .error e => Traced.throw e
  | .ok swap => push "MemorySwapMax" swap

def unifiedApply : PropM Unit := do
  pushLimit "MemoryMax" "memory.limit" memory.limit
  pushLimit "MemoryLow" "memory.reservation" memory.reservation
  pushSwapMax memory

/-! ## The swap limit on cgroup v2 -/

section Swap

variable {cg} {memory : LinuxMemory} {l s : Int64}

/-- The call is not one for the swap limit, or it is one for `s`. -/
def SwapIs (s : Int64) (c : MemCall) : Prop := ∀ v, c = .setMemswapLimit v → v = s

theorem setResource_only {func : Int64 → MemCall} (hfunc : ∀ v, SwapIs s (func v)) (field : Option Int64) :
    (setResource cg func field).Only (SwapIs s) :=
  .ite (fun _ => .call (hfunc _)) fun _ => .pure ()

theorem initKmemLimits_only (update : Bool) : (initKmemLimits cg update).Only (SwapIs s) := by
  exact .ite (fun _ => .pure ()) fun _ => .bind (.call nofun) fun _ => .call nofun

theorem setLimitAndSwap_only (usageLimit : UInt64) : (setLimitAndSwap cg memory s usageLimit).Only (SwapIs s) := by
  have hswap : (Traced.call cg.answer (.setMemswapLimit s)).Only (SwapIs s) := by
    refine .call fun v hv => ?_
    cases hv
    rfl
  have hlimit : (setResource cg .setLimit memory.limit).Only (SwapIs s) :=
    setResource_only (by nofun) _
  exact .ite (fun _ => .bind hswap fun _ => hlimit) fun _ => .bind hlimit fun _ => hswap

/-- With a limit the swap goes to the controller as it was requested. -/
theorem setMemory_only (hlimit : memory.limit = some l) (hs : s ≠ 0) : (setMemory cg memory s).Only (SwapIs s) := by
  refine .ite (fun _ => .bind (.ask _) fun stats => ?_) fun h => ?_
  · cases stats with
    | none => exact .throw _
    | some usageLimit => exact setLimitAndSwap_only usageLimit
  · exact absurd ⟨by rw [hlimit]; rfl, hs⟩ h

theorem setSwappiness_only (swappiness : Option UInt64) : (setSwappiness cg swappiness).Only (SwapIs s) := by
  cases swappiness with
  | none => exact .pure ()
  | some _ => exact .ite (fun _ => .call nofun) fun _ => .throw _

theorem requestedSwap_eq (hlimit : memory.limit = some l) (hswap : memory.swap = some s) (hl : 0 < l) :
    requestedSwap memory = s := by
  have hne : memory.limit ≠ some (-1) := by
    rw [hlimit]
    intro h
    cases h
    exact absurd hl (by decide)
  rw [requestedSwap, if_neg hne, hswap]
  rfl

theorem setMemoryResources_only (hlimit : memory.limit = some l) (hswap : memory.swap = some s) (hl : 0 < l)
    (hs : s ≠ 0) (update : Bool) : (setMemoryResources cg memory update).Only (SwapIs s) := by
  rw [setMemoryResources, requestedSwap_eq hlimit hswap hl]
  refine .bind (initKmemLimits_only update) fun _ => .bind (setMemory_only hlimit hs) fun _ => ?_
  refine .bind (setResource_only (by nofun) _) fun _ => ?_
  refine .bind (setResource_only (by nofun) _) fun _ => ?_
  refine .bind (setResource_only (by nofun) _) fun _ => ?_
  exact .bind (setSwappiness_only _) fun _ => .ite (fun _ => .call nofun) fun _ => .pure ()

theorem pushLimit_only {P : String × UInt64 → Prop} {name : String} (h : ∀ v, P (name, v)) (field : String)
    (limit : Option Int64) : (pushLimit name field limit).Only P := by
  cases limit with
  | none => exact .pure ()
  | some v => exact .ite (fun _ => .call (h _)) fun _ => .ite (fun _ => .call (h _)) fun _ => .throw _

theorem memorySwapMax_eq (hlimit : memory.limit = some l) (hswap : memory.swap = some s) (hl : 1 ≤ l) (hs : 1 ≤ s) :
    memorySwapMax memory = .ok (l - s).toUInt64 := by
  have hne : s ≠ 0 := by
    intro h
    rw [h] at hs
    exact absurd hs (by decide)
  simp only [memorySwapMax, hswap, hlimit, if_neg hne, if_pos hs, if_pos hl]

theorem unifiedApply_only (hlimit : memory.limit = some l) (hswap : memory.swap = some s) (hl : 1 ≤ l) (hs : 1 ≤ s) :
    (unifiedApply memory).Only fun p => p.1 = "MemorySwapMax" → p.2 = (l - s).toUInt64 := by
  have hname : ∀ name : String, name ≠ "MemorySwapMax" →
      ∀ v : UInt64, (name, v).1 = "MemorySwapMax" → (name, v).2 = (l - s).toUInt64 :=
    fun _ hne _ heq => absurd heq hne
  refine .bind (pushLimit_only (hname _ (by decide)) _ _) fun _ => ?_
  refine .bind (pushLimit_only (hname _ (by decide)) _ _) fun _ => ?_
  rw [pushSwapMax, memorySwapMax_eq hlimit hswap hl hs]
  exact .call fun _ => rfl

theorem swap_v2_never (cg : Cgroup) (memory : LinuxMemory) (update : Bool) (l s : Int64)
    (hlimit : memory.limit = some l) (hswap : memory.swap = some s) (hl : 0 < l) (hls : l ≤ s) :
    MemCall.setMemswapLimit (s - l) ∉ (setMemoryResources cg memory update []).2 ∧
      (∀ v, MemCall.setMemswapLimit v ∈ (setMemoryResources cg memory update []).2 → v = s) ∧
      (("MemorySwapMax", (s - l).toUInt64) ∈ (unifiedApply memory []).2 → l = s) := by
  have hs : s ≠ 0 := by grind
  have hl1 : 1 ≤ l := by grind
  have hs1 : 1 ≤ s := by grind
  have hcalls : ∀ v, MemCall.setMemswapLimit v ∈ (setMemoryResources cg memory update []).2 → v = s := fun v hv =>
    setMemoryResources_only hlimit hswap hl hs update [] nofun _ hv v rfl
  refine ⟨fun h => ?_, hcalls, fun h => ?_⟩
  · have hself := hcalls _ h
    grind
  · have heq := unifiedApply_only hlimit hswap hl1 hs1 [] nofun _ h rfl
    have hsub : s - l = l - s := congrArg Int64.ofUInt64 heq
    grind

/-- A cgroup v2 whose controller does all it is asked for. -/
def obliging : Cgroup where
  v2 := true
  answer _ _ := .ok ()
  memoryStats _ := some u64Max

/-- Memory of 1 GiB and swap of another GiB: the controller gets 2 GiB of swap and systemd nearly
2^64 bytes. -/
theorem swap_v2_two_gib : let memory : LinuxMemory := { limit := some 0x40000000, swap := some 0x80000000 }
    (setMemoryResources obliging memory true []).2 =
        [.setLimit 0x40000000, .setMemswapLimit 0x80000000] ∧
      (unifiedApply memory []).2 = [("MemoryMax", 0x40000000), ("MemorySwapMax", 0xFFFFFFFFC0000000)] ∧
      convertMemorySwapToV2Value 0x80000000 0x40000000 = .ok 0x40000000 := by
  decide

theorem swap_v2_never_two_gib :
    MemCall.setMemswapLimit 0x40000000 ∉
      (setMemoryResources obliging { limit := some 0x40000000, swap := some 0x80000000 } true []).2 :=
  (swap_v2_never obliging { limit := some 0x40000000, swap := some 0x80000000 } true 0x40000000 0x80000000 rfl rfl
    (by decide) (by decide)).1

end Swap
end Kata.Cgroups
