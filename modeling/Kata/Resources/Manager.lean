import Kata.Allocator.Pool

/-!
# Kata.Resources.Manager

The resource manager of a virtual machine (`dragonball/src/resource_manager.rs`), with the
descriptors of resources (`dbs_device/src/resources.rs`) and the memory layout for x86_64
(`dbs_boot/src/x86_64/layout.rs`).

A call that can panic returns `Except Panic`; `checks` is the build setting `overflow-checks`. The
six pools are six fields, as in the source, and `PoolId` names them.
-/

namespace Kata.Resources

open Allocator

/-! ## Layout -/

/-- The number of physical address bits, which is read from `/proc/cpuinfo`. -/
structure Layout where
  physBits : Nat
  physBits_ge : 36 ≤ physBits
  physBits_le : physBits ≤ 64

/-- `(1u64 << size) - 1`; a shift by 64 is one by 0, unless it panics. -/
def Layout.guestPhysEnd (l : Layout) : Nat := 2 ^ (l.physBits % 64) - 1

def Layout.guestMemEnd (l : Layout) : Nat := l.guestPhysEnd >>> 1

def mmioLowStart : Nat := 3 <<< 30
def mmioLowEnd : Nat := (4 <<< 30) - 1
def guestMemStart : Nat := 0

def legacyIrqBase : UInt32 := 5
def legacyIrqMax : UInt32 := 15
def sharedIrq : UInt32 := legacyIrqBase
def msiIrqBase : UInt32 := 24
def msiIrqMax : UInt32 := 1023
def kvmUserMemSlots : Nat := 509
def pioMin : Nat := 0
def pioMax : Nat := 0xFFFF
def mmioSpaceReserved : U64 := 0x4000000

/-! ## Descriptors -/

inductive ResourceConstraint where
  | pioAddress (range : Option (UInt16 × UInt16)) (align size : UInt16)
  | mmioAddress (range : Option (U64 × U64)) (align size : U64)
  | memAddress (range : Option (U64 × U64)) (align size : U64)
  | legacyIrq (irq : Option UInt32)
  | pciMsiIrq (size : UInt32)
  | pciMsixIrq (size : UInt32)
  | genericIrq (size : UInt32)
  | kvmMemSlot (slot : Option UInt32) (size : UInt32)
deriving DecidableEq, Repr

inductive MsiIrqType where
  | pciMsi
  | pciMsix
  | genericMsi
deriving DecidableEq, Repr

inductive Resource where
  | pioAddressRange (base size : UInt16)
  | mmioAddressRange (base size : U64)
  | memAddressRange (base size : U64)
  | legacyIrq (irq : UInt32)
  | msiIrq (ty : MsiIrqType) (base size : UInt32)
  | macAddress (addr : String)
  | kvmMemSlot (slot : UInt32)
deriving DecidableEq, Repr

inductive ResourceError where
  | unknownResourceType
  | invalidResourceRange (type : String)
  | noAvailResource
deriving DecidableEq, Repr

def ofU16 (n : UInt16) : U64 := ⟨n.toNat, Nat.lt_trans n.toNat_lt (by decide)⟩

def ofU32 (n : UInt32) : U64 := ⟨n.toNat, Nat.lt_trans n.toNat_lt (by decide)⟩

/-- `a - b` in `u16` -/
def subU16 (checks : Bool) (a b : Nat) : Except Panic Nat :=
  if b ≤ a then .ok (a - b)
  else if checks then .error .overflow
  else .ok (2 ^ 16 + a - b)

/-! ## The manager -/

structure ResourceManager where
  legacyIrqPool : IntervalTree Unit
  msiIrqPool : IntervalTree Unit
  pioPool : IntervalTree Unit
  mmioPool : IntervalTree Unit
  memPool : IntervalTree Unit
  kvmMemSlotPool : IntervalTree Unit

inductive PoolId where
  | legacyIrq
  | msiIrq
  | pio
  | mmio
  | mem
  | kvmMemSlot
deriving DecidableEq, Repr

namespace ResourceManager

section Pools

variable (m : ResourceManager)

def pool : PoolId → IntervalTree Unit
  | .legacyIrq => m.legacyIrqPool
  | .msiIrq => m.msiIrqPool
  | .pio => m.pioPool
  | .mmio => m.mmioPool
  | .mem => m.memPool
  | .kvmMemSlot => m.kvmMemSlotPool

def setPool (t : IntervalTree Unit) : PoolId → ResourceManager
  | .legacyIrq => { m with legacyIrqPool := t }
  | .msiIrq => { m with msiIrqPool := t }
  | .pio => { m with pioPool := t }
  | .mmio => { m with mmioPool := t }
  | .mem => { m with memPool := t }
  | .kvmMemSlot => { m with kvmMemSlotPool := t }

@[simp] theorem pool_setPool (t : IntervalTree Unit) (id : PoolId) :
    (m.setPool t id).pool id = t := by
  cases id <;> rfl

theorem pool_setPool_ne (t : IntervalTree Unit) {id id' : PoolId} (h : id' ≠ id) :
    (m.setPool t id).pool id' = m.pool id' := by
  cases id <;> cases id' <;> first | rfl | exact absurd rfl h

@[simp] theorem setPool_pool (id : PoolId) : m.setPool (m.pool id) id = m := by
  cases id <;> rfl

end Pools

/-- The panic of `init_mmio_pool_helper`, beside those of the allocator. -/
inductive InitPanic where
  | allocator (p : Panic)
  | reserveMmio  -- "failed to reserve MMIO address range for x86 system devices"
deriving DecidableEq, Repr

/-- There is no guest memory above the low MMIO window, or no such window. -/
def Layout.unsplit (l : Layout) : Bool :=
  decide (l.guestMemEnd < mmioLowStart) || decide (guestMemStart > mmioLowEnd) ||
    mmioLowStart == mmioLowEnd

/-- The 64MB below 4G are set aside for the devices of the system. -/
def reserveMmio (checks : Bool) (mmio : IntervalTree Unit) : Except InitPanic (IntervalTree Unit) := do
  let c : Constraint :=
    { Constraint.new mmioSpaceReserved with
      min := Fin.ofNat _ (mmioLowEnd - mmioSpaceReserved), max := 0xffffffff }
  let (key, mmio) ← (IntervalTree.allocate checks mmio c).mapError .allocator
  match key with
  | some k => do return (← (mmio.update k ()).mapError .allocator).2
  | none => .error .reserveMmio

def initMmioPoolHelper (checks : Bool) (l : Layout) (mmio : IntervalTree Unit) :
    Except InitPanic (IntervalTree Unit) := do
  let window ← (Range.new mmioLowStart mmioLowEnd).mapError .allocator
  let mmio ← (mmio.insert window none).mapError .allocator
  let mmio ← if !Layout.unsplit l then reserveMmio checks mmio else .ok mmio
  if l.guestMemEnd < l.guestPhysEnd then do
    let high ← (Range.new (l.guestMemEnd + 1) l.guestPhysEnd).mapError .allocator
    (mmio.insert high none).mapError .allocator
  else .ok mmio

def initMemPoolHelper (l : Layout) (mem : IntervalTree Unit) : Except Panic (IntervalTree Unit) :=
  if Layout.unsplit l then do mem.insert (← Range.new guestMemStart l.guestMemEnd) none
  else do
    let mem ←
      if mmioLowStart > guestMemStart then do
        mem.insert (← Range.new guestMemStart (mmioLowStart - 1)) none
      else .ok mem
    if mmioLowEnd < l.guestMemEnd then do
      mem.insert (← Range.new (mmioLowEnd + 1) l.guestMemEnd) none
    else .ok mem

def default : ResourceManager := ⟨.new, .new, .new, .new, .new, .new⟩

def new (checks : Bool) (l : Layout) (maxKvmMemSlot : Option U64) : Except InitPanic ResourceManager := do
  let legacy ← (Range.new (legacyIrqBase.toNat + 1) legacyIrqMax.toNat).mapError .allocator
  let msi ← (Range.new msiIrqBase.toNat msiIrqMax.toNat).mapError .allocator
  let pio ← (Range.new pioMin pioMax).mapError .allocator
  let maxSlots : Nat := match maxKvmMemSlot with
    | some slots => slots
    | none => kvmUserMemSlots
  let slots ← (Range.new 0 maxSlots).mapError .allocator
  return {
    legacyIrqPool := ← (IntervalTree.insert .new legacy none).mapError .allocator
    msiIrqPool := ← (IntervalTree.insert .new msi none).mapError .allocator
    pioPool := ← (IntervalTree.insert .new pio none).mapError .allocator
    mmioPool := ← initMmioPoolHelper checks l .new
    memPool := ← (initMemPoolHelper l .new).mapError .allocator
    kvmMemSlotPool := ← (IntervalTree.insert .new slots none).mapError .allocator }

def initMemPool (l : Layout) (m : ResourceManager) : Except Panic ResourceManager := do
  return { m with memPool := ← initMemPoolHelper l m.memPool }

section Calls

variable (checks : Bool) (l : Layout) (m : ResourceManager)

/-- Allocates from a pool. Most pools also mark what they have allocated. -/
def take (id : PoolId) (c : Constraint) (mark : Bool) : Except Panic (Option Range × ResourceManager) := do
  let (key, t) ← IntervalTree.allocate checks (m.pool id) c
  match key with
  | none => return (none, m.setPool t id)
  | some k =>
    let t ← if mark then do pure (← t.update k ()).2 else .ok t
    return (some k, m.setPool t id)

/-- Frees `[min, max]` in a pool. -/
def release (id : PoolId) (min max : Nat) : Except Panic (Except ResourceError Unit × ResourceManager) := do
  let key ← Range.new min max
  let (_, t) ← IntervalTree.free checks (m.pool id) key
  return (.ok (), m.setPool t id)

def invalid (type : String) : Except Panic (Except ResourceError Unit × ResourceManager) :=
  .ok (.error (.invalidResourceRange type), m)

def allocateLegacyIrq (shared : Bool) (fixed : Option UInt32) :
    Except Panic (Option UInt32 × ResourceManager) :=
  if shared then .ok (some sharedIrq, m)
  else
    match fixed with
    | some v =>
      if v = sharedIrq then .ok (none, m)
      else do
        let (key, m) ← m.take checks .legacyIrq { Constraint.new 1 with min := ofU32 v, max := ofU32 v } true
        return (key.map fun k => UInt32.ofNat k.min, m)
    | none => do
      let (key, m) ← m.take checks .legacyIrq (Constraint.new 1) true
      return (key.map fun k => UInt32.ofNat k.min, m)

def freeLegacyIrq (irq : UInt32) : Except Panic (Except ResourceError Unit × ResourceManager) :=
  if irq = sharedIrq then .ok (.ok (), m)
  else if ¬ (legacyIrqBase ≤ irq ∧ irq ≤ legacyIrqMax) then m.invalid "Legacy IRQ"
  else m.release checks .legacyIrq irq.toNat irq.toNat

def allocateMsiIrq (count : UInt32) : Except Panic (Option UInt32 × ResourceManager) := do
  let (key, m) ← m.take checks .msiIrq (Constraint.new (ofU32 count)) true
  return (key.map fun k => UInt32.ofNat k.min, m)

def allocateMsiIrqAligned (count : UInt32) : Except Panic (Option UInt32 × ResourceManager) := do
  let (key, m) ← m.take checks .msiIrq { Constraint.new (ofU32 count) with align := ofU32 count } true
  return (key.map fun k => UInt32.ofNat k.min, m)

def freeMsiIrq (irq count : UInt32) : Except Panic (Except ResourceError Unit × ResourceManager) :=
  if irq < msiIrqBase ∨ count = 0 ∨ 2 ^ 32 ≤ irq.toNat + count.toNat ∨
      irq.toNat + count.toNat - 1 > msiIrqMax.toNat then m.invalid "MSI IRQ"
  else m.release checks .msiIrq irq.toNat (irq.toNat + count.toNat - 1)

def allocatePioAddress (c : Constraint) : Except Panic (Option UInt16 × ResourceManager) := do
  let (key, m) ← m.take checks .pio c true
  return (key.map fun k => UInt16.ofNat k.min, m)

def freePioAddress (base size : UInt16) : Except Panic (Except ResourceError Unit × ResourceManager) :=
  if 2 ^ 16 ≤ base.toNat + size.toNat then m.invalid "PIO Address"
  else do m.release checks .pio base.toNat (← subU16 checks (base.toNat + size.toNat) 1)

def allocateMmioAddress (c : Constraint) : Except Panic (Option U64 × ResourceManager) := do
  let (key, m) ← m.take checks .mmio c false
  return (key.map fun k => Fin.ofNat _ k.min, m)

def freeMmioAddress (base size : U64) : Except Panic (Except ResourceError Unit × ResourceManager) :=
  if u64Max < base.val + size.val then m.invalid "MMIO Address"
  else do m.release checks .mmio base (← subU64 checks (base.val + size.val) 1)

def allocateMemAddress (c : Constraint) : Except Panic (Option U64 × ResourceManager) := do
  let (key, m) ← m.take checks .mem c false
  return (key.map fun k => Fin.ofNat _ k.min, m)

def freeMemAddress (base size : U64) : Except Panic (Except ResourceError Unit × ResourceManager) :=
  if u64Max < base.val + size.val ∨ base.val < guestMemStart ∨ base.val + size.val > l.guestMemEnd then
    m.invalid "MEM Address"
  else do m.release checks .mem base (← subU64 checks (base.val + size.val) 1)

def allocateKvmMemSlot (size : UInt32) (fixed : Option UInt32) :
    Except Panic (Option UInt32 × ResourceManager) := do
  let c := match fixed with
    | some v => { Constraint.new (ofU32 size) with min := ofU32 v, max := ofU32 v }
    | none => Constraint.new (ofU32 size)
  let (key, m) ← m.take checks .kvmMemSlot c true
  return (key.map fun k => UInt32.ofNat k.min, m)

def freeKvmMemSlot (slot : UInt32) : Except Panic (Except ResourceError Unit × ResourceManager) :=
  m.release checks .kvmMemSlot slot.toNat slot.toNat

/-! ## Devices -/

/-- The body of the loop in `free_device_resources`. -/
def freeOne : Resource → Except Panic (Except ResourceError Unit × ResourceManager)
  | .pioAddressRange base size => m.freePioAddress checks base size
  | .mmioAddressRange base size => m.freeMmioAddress checks base size
  | .memAddressRange base size => m.freeMemAddress checks l base size
  | .legacyIrq irq => m.freeLegacyIrq checks irq
  | .msiIrq _ base size => m.freeMsiIrq checks base size
  | .kvmMemSlot slot => m.freeKvmMemSlot checks slot
  | .macAddress _ => .ok (.ok (), m)

def freeDeviceResources (m : ResourceManager) :
    List Resource → Except Panic (Except ResourceError Unit × ResourceManager)
  | [] => .ok (.ok (), m)
  | res :: rest => do
    match ← m.freeOne checks l res with
    | (.error e, m) => return (.error e, m)
    | (.ok (), m) => freeDeviceResources m rest

/-- The bounds of a request, if it has some. -/
def bounded (c : Constraint) : Option (U64 × U64) → Constraint
  | none => c
  | some (min, max) => { c with min := min, max := max }

/-- The body of the loop in `allocate_device_resources`; `none` where it gives up. -/
def allocateOne (shared : Bool) : ResourceConstraint → Except Panic (Option Resource × ResourceManager)
  | .pioAddress range align size => do
    let c := bounded { Constraint.new (ofU16 size) with align := ofU16 align }
      (range.map fun r => (ofU16 r.1, ofU16 r.2))
    let (base, m) ← m.allocatePioAddress checks c
    return (base.map fun base => .pioAddressRange base size, m)
  | .mmioAddress range align size => do
    let (base, m) ← m.allocateMmioAddress checks (bounded { Constraint.new size with align := align } range)
    return (base.map fun base => .mmioAddressRange base size, m)
  | .memAddress range align size => do
    let (base, m) ← m.allocateMemAddress checks (bounded { Constraint.new size with align := align } range)
    return (base.map fun base => .memAddressRange base size, m)
  | .legacyIrq irq => do
    let (v, m) ← m.allocateLegacyIrq checks shared irq
    return (v.map .legacyIrq, m)
  | .pciMsiIrq size => do
    let (base, m) ← m.allocateMsiIrqAligned checks size
    return (base.map fun base => .msiIrq .pciMsi base size, m)
  | .pciMsixIrq size => do
    let (base, m) ← m.allocateMsiIrq checks size
    return (base.map fun base => .msiIrq .pciMsix base size, m)
  | .genericIrq size => do
    let (base, m) ← m.allocateMsiIrq checks size
    return (base.map fun base => .msiIrq .genericMsi base size, m)
  | .kvmMemSlot slot size => do
    let (v, m) ← m.allocateKvmMemSlot checks size slot
    return (v.map .kvmMemSlot, m)

/-- Gives back what has been allocated so far. -/
def rollback (resources : List Resource) :
    Except Panic (Except ResourceError (List Resource) × ResourceManager) := do
  match ← m.freeDeviceResources checks l resources with
  | (.error e, m) => return (.error e, m)
  | (.ok (), m) => return (.error .noAvailResource, m)

def allocateLoop (shared : Bool) (m : ResourceManager) (resources : List Resource) :
    List ResourceConstraint → Except Panic (Except ResourceError (List Resource) × ResourceManager)
  | [] => .ok (.ok resources, m)
  | req :: rest => do
    match ← m.allocateOne checks shared req with
    | (none, m) => m.rollback checks l resources
    | (some res, m) => allocateLoop shared m (resources ++ [res]) rest

def allocateDeviceResources (requests : List ResourceConstraint) (shared : Bool) :
    Except Panic (Except ResourceError (List Resource) × ResourceManager) :=
  allocateLoop checks l shared m [] requests

end Calls

/-! ## Runs -/

/-- A call of the manager. -/
inductive Op where
  | allocateLegacyIrq (shared : Bool) (fixed : Option UInt32)
  | freeLegacyIrq (irq : UInt32)
  | allocateMsiIrq (count : UInt32)
  | allocateMsiIrqAligned (count : UInt32)
  | freeMsiIrq (irq count : UInt32)
  | allocatePioAddress (c : Constraint)
  | freePioAddress (base size : UInt16)
  | allocateMmioAddress (c : Constraint)
  | freeMmioAddress (base size : U64)
  | allocateMemAddress (c : Constraint)
  | freeMemAddress (base size : U64)
  | allocateKvmMemSlot (size : UInt32) (fixed : Option UInt32)
  | freeKvmMemSlot (slot : UInt32)
  | allocateDeviceResources (requests : List ResourceConstraint) (shared : Bool)
  | freeDeviceResources (resources : List Resource)
  | initMemPool

def apply (checks : Bool) (l : Layout) (m : ResourceManager) : Op → Except Panic ResourceManager
  | .allocateLegacyIrq shared fixed => do return (← m.allocateLegacyIrq checks shared fixed).2
  | .freeLegacyIrq irq => do return (← m.freeLegacyIrq checks irq).2
  | .allocateMsiIrq count => do return (← m.allocateMsiIrq checks count).2
  | .allocateMsiIrqAligned count => do return (← m.allocateMsiIrqAligned checks count).2
  | .freeMsiIrq irq count => do return (← m.freeMsiIrq checks irq count).2
  | .allocatePioAddress c => do return (← m.allocatePioAddress checks c).2
  | .freePioAddress base size => do return (← m.freePioAddress checks base size).2
  | .allocateMmioAddress c => do return (← m.allocateMmioAddress checks c).2
  | .freeMmioAddress base size => do return (← m.freeMmioAddress checks base size).2
  | .allocateMemAddress c => do return (← m.allocateMemAddress checks c).2
  | .freeMemAddress base size => do return (← m.freeMemAddress checks l base size).2
  | .allocateKvmMemSlot size fixed => do return (← m.allocateKvmMemSlot checks size fixed).2
  | .freeKvmMemSlot slot => do return (← m.freeKvmMemSlot checks slot).2
  | .allocateDeviceResources requests shared => do
    return (← m.allocateDeviceResources checks l requests shared).2
  | .freeDeviceResources resources => do return (← m.freeDeviceResources checks l resources).2
  | .initMemPool => m.initMemPool l

/-- A call that returns. -/
def Step (checks : Bool) (l : Layout) (m : ResourceManager) (op : Op) (m' : ResourceManager) : Prop :=
  m.apply checks l op = .ok m'

/-- The managers that are built by the constructors. -/
inductive Initial (checks : Bool) (l : Layout) : ResourceManager → Prop where
  | default : Initial checks l default
  | new {maxKvmMemSlot : Option U64} {m : ResourceManager} : new checks l maxKvmMemSlot = .ok m →
      Initial checks l m

end ResourceManager
end Kata.Resources
