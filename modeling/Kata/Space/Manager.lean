import Kata.Lib.Procedure
import Kata.Lib.SortedMap
import Kata.Resources.Manager
import Kata.Space.Regions

/-!
# Kata.Space.Manager

The creation of the guest memory (`dragonball/src/address_space_manager.rs`,
`create_address_space`).

The calls to the host (for the memory of a region, its mapping and the KVM slot) are answered by
`Host`, one answer for each call. `Build` has the settings that decide whether an overflow or a
failed `debug_assert` panics.
-/

namespace Kata.Space

open Allocator Resources

/-! ## Checked arithmetic -/

def checkedAdd (a b : U64) : Option U64 := if h : a.val + b.val < 2 ^ 64 then some ⟨_, h⟩ else none

def checkedSub (a b : U64) : Option U64 :=
  if b.val ≤ a.val then some ⟨a.val - b.val, Nat.lt_of_le_of_lt (Nat.sub_le _ _) a.isLt⟩ else none

/-- Only the number of bits is checked, not what is shifted out. -/
def checkedShl (a : U64) (bits : Nat) : Option U64 :=
  if bits < 64 then some (Fin.ofNat _ (a.val * 2 ^ bits)) else none

/-! ## Data -/

/-- `MINIMAL_SPLIT_SPACE` -/
def minimalSplitSpace : Nat := 128 <<< 20

/-- The size is in MiB. -/
structure NumaRegionInfo where
  size : U64
  hostNumaNodeId : Option UInt32
  guestNumaNodeId : Option UInt32
  vcpuIds : List UInt32

structure NumaNodeInfo where
  base : U64
  size : U64

structure NumaNode where
  regionInfos : List NumaNodeInfo
  vcpuIds : List UInt32

inductive AddressManagerError where
  | invalidOperation
  | noAvailableMemAddress
  | noAvailableKvmSlot
  | createAddressSpaceRegion
  | createMmapRegion  -- one of the errors of `create_mmap_region`
  | createGuestMemory
  | kvmSetMemorySlot
deriving DecidableEq, Repr

structure AddressSpaceMgr where
  addressSpace : Option AddressSpace
  baseToSlot : List (U64 × UInt32)
  numaNodes : List (UInt32 × NumaNode)

namespace AddressSpaceMgr

def default : AddressSpaceMgr := ⟨none, [], []⟩

def insertIntoNumaNodes (mgr : AddressSpaceMgr) (region : AddressSpaceRegion) (guestNumaNodeId : UInt32)
    (vcpuIds : List UInt32) : AddressSpaceMgr :=
  let node := (mgr.numaNodes.lookup guestNumaNodeId).getD ⟨[], []⟩
  let node : NumaNode :=
    { regionInfos := node.regionInfos ++ [⟨region.base, region.size⟩], vcpuIds := node.vcpuIds ++ vcpuIds }
  { mgr with numaNodes := Lib.SortedMap.insert guestNumaNodeId node mgr.numaNodes }

end AddressSpaceMgr

/-! ## The procedure -/

inductive SpacePanic where
  | allocator (p : Panic)
  | debugAssert
  | regions (p : RegionsPanic)

structure Build where
  overflowChecks : Bool
  debugAssertions : Bool
  infoLogged : Bool

/-- `answers` tells for each call to the host whether it succeeds. -/
structure Host where
  answers : Nat → Bool
  vmfd : Bool
  sort : SortByBase

structure State where
  mgr : AddressSpaceMgr
  resMgr : ResourceManager
  calls : Nat

abbrev Work := Lib.Procedure State AddressManagerError SpacePanic

section Work

open Lib.Procedure

variable (b : Build) (host : Host) (l : Layout)

def callHost (e : AddressManagerError) : Work Unit := fun s =>
  .ok (if host.answers s.calls then .ok () else .error e, { s with calls := s.calls + 1 })

def arithmetic (x : Except Panic Nat) : Work Nat := lift (x.mapError .allocator)

def protReadWrite : Int32 := 3

def createRegion (startAddr sizeBytes : U64) (info : NumaRegionInfo) : Work AddressSpaceRegion := do
  callHost host .createAddressSpaceRegion
  let region : AddressSpaceRegion :=
    { ty := .defaultMemory, base := startAddr, size := sizeBytes, hostNumaNodeId := info.hostNumaNodeId,
      protFlags := protReadWrite }
  modify fun s => { s with mgr := s.mgr.insertIntoNumaNodes region (info.guestNumaNodeId.getD 0) info.vcpuIds }
  -- the message has the end of the region
  if b.infoLogged then
    let _ ← arithmetic (addU64 b.overflowChecks startAddr sizeBytes)
  return region

/-- "Guest memory does not intersect with the MMIO hole." The sum is only computed for a low
address. -/
def clearOfHole (startAddr size : U64) : Work Bool :=
  if startAddr.val > mmioLowEnd then pure true
  else do return decide ((← arithmetic (addU64 b.overflowChecks startAddr size)) ≤ mmioLowStart)

/-- The memory below the hole, and its size. -/
def createBelow (startAddr : U64) (info : NumaRegionInfo) : Work (List AddressSpaceRegion × U64) := do
  let belowSize ← okOr (checkedSub (Fin.ofNat _ mmioLowStart) startAddr) .invalidOperation
  if belowSize.val < minimalSplitSpace then return ([], 0)
  else
    let region ← createRegion b host startAddr belowSize info
    return ([region], belowSize)

/-- The body of the first loop: the regions that are pushed, and the new `start_addr`. -/
def placeInfo (startAddr : U64) (info : NumaRegionInfo) : Work (List AddressSpaceRegion × U64) := do
  let size ← okOr (checkedShl info.size 20) .invalidOperation
  if ← clearOfHole b startAddr size then
    let region ← createRegion b host startAddr size info
    let next ← okOr (checkedAdd startAddr size) .invalidOperation
    return ([region], next)
  else
    let (below, belowSize) ← createBelow b host startAddr info
    let aboveStart : U64 := Fin.ofNat _ (mmioLowEnd + 1)
    let aboveSize ← okOr (checkedSub size belowSize) .invalidOperation
    let region ← createRegion b host aboveStart aboveSize info
    let next ← okOr (checkedAdd aboveStart aboveSize) .invalidOperation
    return (below ++ [region], next)

def placeInfos (startAddr : U64) : List NumaRegionInfo → Work (List AddressSpaceRegion)
  | [] => pure []
  | info :: rest => do
    let (regions, next) ← placeInfo b host startAddr info
    return regions ++ (← placeInfos next rest)

/-- `AddressSpaceRegion::last_addr` -/
def lastAddr (region : AddressSpaceRegion) : Work Nat := do
  if b.debugAssertions && !(decide (region.size.val > 0) && region.checkedEnd.isSome) then
    lift (.error .debugAssert)
  let sum ← arithmetic (addU64 b.overflowChecks region.base region.size)
  arithmetic (subU64 b.overflowChecks sum 1)

/-- A call of the resource manager. -/
def callResMgr {α : Type} (call : ResourceManager → Except Panic (α × ResourceManager)) : Work α := fun s =>
  match call s.resMgr with
  | .ok (a, m) => .ok (.ok a, { s with resMgr := m })
  | .error p => .error (.allocator p)

def mapToKvm (region : AddressSpaceRegion) : Work Unit := do
  let slot ← callResMgr fun m => m.allocateKvmMemSlot b.overflowChecks 1 none
  let slot ← okOr slot .noAvailableKvmSlot
  if host.vmfd then
    callHost host .invalidOperation
    callHost host .kvmSetMemorySlot
  modify fun s => { s with mgr := { s.mgr with
    baseToSlot := (region.base, slot) :: s.mgr.baseToSlot.filter fun entry => entry.1 ≠ region.base } }

/-- The body of the second loop. -/
def mapRegion (region : AddressSpaceRegion) : Work Unit := do
  let last ← lastAddr b region
  let constraint : Constraint :=
    { Constraint.new region.size with min := region.base, max := Fin.ofNat _ last }
  let key ← callResMgr fun m => m.allocateMemAddress b.overflowChecks constraint
  let _ ← okOr key .noAvailableMemAddress
  callHost host .createMmapRegion
  callHost host .createGuestMemory
  mapToKvm b host region

def mapRegions : List AddressSpaceRegion → Work Unit
  | [] => pure ()
  | region :: rest => do
    mapRegion b host region
    mapRegions rest

def addressSpaceLayout (l : Layout) : AddressSpaceLayout where
  physEnd := Fin.ofNat _ l.guestPhysEnd
  memStart := Fin.ofNat _ guestMemStart
  memEnd := Fin.ofNat _ l.guestMemEnd

def createAddressSpace (infos : List NumaRegionInfo) : Work Unit := do
  let regions ← placeInfos b host (Fin.ofNat _ guestMemStart) infos
  mapRegions b host regions
  let space ← lift ((AddressSpace.fromRegions host.sort regions (addressSpaceLayout l)).mapError .regions)
  modify fun s => { s with mgr := { s.mgr with addressSpace := some space } }

end Work

end Kata.Space
