import Kata.Lib.Outcome
import Kata.Lib.U64
import Kata.Lib.Window

/-!
# Kata.VirtioMem.Device

The virtio-mem device (`dbs_virtio_devices/src/mem.rs`): how it is set up, the requests of the guest
and `set_requested_size` of the host.

The handler of the queue and the device share the configuration and the map regions; `Mem` has both,
and `Active` adds the bitmap of the handler. Whether `fallocate64`, `madvise`, `create_region` and
the notifier succeed is a parameter of each call. A `u64` is a natural, and `checks` is the build
setting `overflow-checks`.
-/

namespace Kata.VirtioMem

open Lib

inductive Panic where
  | overflow
  | index
deriving DecidableEq, Repr

def add (checks : Bool) (a b : Nat) : Except Panic Nat := U64.add checks .overflow a b

def sub (checks : Bool) (a b : Nat) : Except Panic Nat := U64.sub checks .overflow a b

def mul (checks : Bool) (a b : Nat) : Except Panic Nat := U64.mul checks .overflow a b

def defaultBlockSize : Nat := 4 <<< 20
def defaultBlockAlignment : Nat := 128 * 1024 * 1024
def mapRegionShift : Nat := 31
def mapRegionSize : Nat := 1 <<< mapRegionShift
def mapRegionMask : Nat := U64.max ^^^ ((U64.max <<< mapRegionShift) % 2 ^ 64)
def bootMemSizeForLargeBlock : Nat := 64 <<< 30

structure VirtioMemConfig where
  blockSize : Nat
  addr : Nat
  regionSize : Nat
  usableRegionSize : Nat
  pluggedSize : Nat
  requestedSize : Nat
deriving DecidableEq, Repr

structure MapRegion where
  slot : UInt32
  mapped : Option (Nat × Nat)  -- host address, guest address
deriving DecidableEq, Repr

structure Mem where
  config : VirtioMemConfig
  capacity : Nat
  alignment : Nat
  multiRegion : Bool
  mapRegions : List MapRegion
  hostFd : Option Int
deriving DecidableEq, Repr

structure Active where
  mem : Mem
  memState : List Bool
deriving DecidableEq, Repr

inductive Error where
  | invalidInput
  | invalidResource
  | createRegion
  | notify
deriving DecidableEq, Repr

inductive Resp where
  | ack
  | nack
  | error
deriving DecidableEq, Repr

inductive BlockState where
  | plugged
  | unplugged
  | mixed
deriving DecidableEq, Repr

/-- The answers of the host during one request, for the range at an offset of the region. -/
structure Host where
  fallocate : (offset size : Nat) → Bool
  madvise : (offset hostAddr size : Nat) → Bool

/-- `create_region` and `get_host_address`: the host address of a new region, or none if one of them
fails. -/
abbrev Factory := (guestAddr len : Nat) → (slot : UInt32) → Option Nat

/-! ## Requests of the guest -/

section Requests

variable (checks : Bool) (host : Host) (mem : Mem)

def validRange (config : VirtioMemConfig) (addr size : Nat) : Except Panic Bool :=
  if addr % config.blockSize ≠ 0 ∨ size % config.blockSize ≠ 0 then .ok false
  else if addr + size > U64.max ∨ size = 0 then .ok false
  else if addr < config.addr then .ok false
  else do
    let top ← add checks config.addr config.usableRegionSize
    if addr ≥ top then .ok false else .ok (addr + size ≤ top)

def checkBitmap (bitIndex nbBlocks : Nat) (memState : List Bool) (plug : Bool) : Bool :=
  ((memState.drop bitIndex).take nbBlocks).all (· == plug)

def setBitmap (bitIndex nbBlocks : Nat) (memState : List Bool) (plug : Bool) : List Bool :=
  Lib.Window.fill memState bitIndex nbBlocks plug

/-- A plug request for more than the requested size. -/
def exceeds (plug : Bool) (size : Nat) : Except Panic Bool :=
  if plug then do return (← add checks mem.config.pluggedSize size) > mem.config.requestedSize
  else .ok false

/-- The addresses of a map region; none if there is no such region. -/
def mappedAt (mapRegions : List MapRegion) (index : Nat) : Option (Option (Nat × Nat)) :=
  mapRegions[index]?.map MapRegion.mapped

/-- The host address of the range at an offset, if it is mapped. -/
def hostAddr (offset size : Nat) : Except Panic (Option Nat) :=
  if mem.multiRegion then
    if (offset + size - 1) >>> mapRegionShift ≠ offset >>> mapRegionShift then .ok none
    else
      match mappedAt mem.mapRegions (offset >>> mapRegionShift) with
      | none => .ok none
      | some none => .ok none
      | some (some (base, _)) => do return some (← add checks (offset &&& mapRegionMask) base)
  else
    match mappedAt mem.mapRegions 0 with
    | none => .error .index
    | some none => .ok none
    | some (some (base, _)) => do return some (← add checks base offset)

/-- The system calls of an unplug request. -/
def release (offset hostAddr size : Nat) : Bool :=
  (mem.hostFd.isNone || host.fallocate offset size) && host.madvise offset hostAddr size

def stateChangeRequest (memState : List Bool) (addr size nbBlocks : Nat) (plug : Bool) :
    Except Panic (Resp × List Bool) := do
  match ← exceeds checks mem plug size with
  | true => .ok (.nack, memState)
  | false =>
    match ← validRange checks mem.config addr size with
    | false => .ok (.error, memState)
    | true =>
      let offset := addr - mem.config.addr
      let bitIndex := offset / mem.config.blockSize
      if checkBitmap bitIndex nbBlocks memState !plug then
        match ← hostAddr checks mem offset size with
        | none => .ok (.error, memState)
        | some hostAddr =>
          if plug || release host mem offset hostAddr size then .ok (.ack, setBitmap bitIndex nbBlocks memState plug)
          else .ok (.error, memState)
      else .ok (.error, memState)

/-- The loop of `virtio_mem_unplug_all`, with `n` blocks to go from the block `x` on. -/
def unplugLoop (memState : List Bool) (x : Nat) : Nat → Except Panic (Resp × List Bool)
  | 0 => .ok (.ack, memState)
  | n + 1 =>
    match memState[x]? with
    | none => .error .index
    | some false => unplugLoop memState (x + 1) n
    | some true => do
      let addr ← add checks mem.config.addr (x * mem.config.blockSize)
      match ← stateChangeRequest checks host mem memState addr mem.config.blockSize 1 false with
      | (.ack, memState) => unplugLoop (memState.set x false) (x + 1) n
      | (resp, memState) => .ok (resp, memState)

def unplugAll (memState : List Bool) : Except Panic (Resp × List Bool) :=
  unplugLoop checks host mem memState 0 (mem.config.regionSize / mem.config.blockSize)

def stateRequest (memState : List Bool) (addr nbBlocks : Nat) : Except Panic (Resp × BlockState) := do
  let valid ← validRange checks mem.config addr (nbBlocks * mem.config.blockSize)
  let offset ← sub checks addr mem.config.addr
  let bitIndex := offset / mem.config.blockSize
  let state :=
    if checkBitmap bitIndex nbBlocks memState true then .plugged
    else if checkBitmap bitIndex nbBlocks memState false then .unplugged
    else .mixed
  return (if valid then .ack else .error, state)

end Requests

structure VirtioMemReq where
  reqType : UInt16
  addr : Nat
  nbBlocks : UInt16
deriving DecidableEq, Repr

/-- `VirtioMemResp`; `plugged` is the state 0, which stands in every response but that to a state
request. -/
structure VirtioMemResp where
  respType : Resp
  state : BlockState
deriving DecidableEq, Repr

namespace Active

variable (checks : Bool) (host : Host)

variable (s : Active)

def size (req : VirtioMemReq) : Nat := req.nbBlocks.toNat * s.mem.config.blockSize

def setPlugged (pluggedSize : Nat) (memState : List Bool) : Active :=
  { mem := { s.mem with config := { s.mem.config with pluggedSize := pluggedSize } }, memState := memState }

/-- The plugged size is set only when the request is carried out. -/
def settle (pluggedSize : Except Panic Nat) : Resp × List Bool → Except Panic (Resp × Active)
  | (.ack, memState) => do return (.ack, s.setPlugged (← pluggedSize) memState)
  | (resp, memState) => .ok (resp, { s with memState := memState })

def plug (req : VirtioMemReq) : Except Panic (Resp × Active) := do
  s.settle (add checks s.mem.config.pluggedSize (s.size req))
    (← stateChangeRequest checks host s.mem s.memState req.addr (s.size req) req.nbBlocks.toNat true)

def unplug (req : VirtioMemReq) : Except Panic (Resp × Active) := do
  s.settle (sub checks s.mem.config.pluggedSize (s.size req))
    (← stateChangeRequest checks host s.mem s.memState req.addr (s.size req) req.nbBlocks.toNat false)

def unplugAll : Except Panic (Resp × Active) := do
  s.settle (.ok 0) (← VirtioMem.unplugAll checks host s.mem s.memState)

/-- One request of the loop of `process_queue`; a request of an unknown type is not answered. -/
def processRequest (req : VirtioMemReq) : Except Panic (Option VirtioMemResp × Active) :=
  if req.reqType = 0 then do
    let (resp, s) ← s.plug checks host req
    return (some ⟨resp, .plugged⟩, s)
  else if req.reqType = 1 then do
    let (resp, s) ← s.unplug checks host req
    return (some ⟨resp, .plugged⟩, s)
  else if req.reqType = 2 then do
    let (resp, s) ← s.unplugAll checks host
    return (some ⟨resp, .plugged⟩, s)
  else if req.reqType = 3 then do
    let (resp, state) ← stateRequest checks s.mem s.memState req.addr req.nbBlocks.toNat
    return (some ⟨resp, state⟩, s)
  else .ok (none, s)

end Active

/-! ## The queue -/

structure Descriptor where
  addr : Nat
  len : UInt32
  isWriteOnly : Bool

inductive MemError where
  | guestMemory
  | unexpectedWriteOnlyDescriptor
  | unexpectedReadOnlyDescriptor
  | descriptorChainTooShort
  | descriptorLengthTooSmall
  | invalidRequest
deriving DecidableEq, Repr

structure GuestMemory where
  readReq : Nat → Option VirtioMemReq
  writeResp : Nat → VirtioMemResp → Bool

def sizeOfReq : Nat := 24
def sizeOfResp : Nat := 10

/-- The request and the address of its status. -/
def parse (guest : GuestMemory) : List Descriptor → Except MemError (VirtioMemReq × Nat)
  | [] => .error .descriptorChainTooShort
  | avail :: rest =>
    if avail.isWriteOnly then .error .unexpectedWriteOnlyDescriptor
    else if avail.len.toNat ≠ sizeOfReq then .error .invalidRequest
    else
      match guest.readReq avail.addr, rest with
      | none, _ => .error .guestMemory
      | some _, [] => .error .descriptorChainTooShort
      | some req, status :: _ =>
        if !status.isWriteOnly then .error .unexpectedReadOnlyDescriptor
        else if status.len.toNat < sizeOfResp then .error .descriptorLengthTooSmall
        else .ok (req, status.addr)

/-- A descriptor chain, with guest memory and the answers of the host at the time it is handled. -/
structure Chain where
  headIndex : UInt16
  descs : List Descriptor
  guest : GuestMemory
  host : Host

def sendResponse (guest : GuestMemory) (statusAddr : Nat) (resp : VirtioMemResp) : Nat :=
  if guest.writeResp statusAddr resp then sizeOfResp else 0

namespace Active

variable (checks : Bool)

/-- One turn of the loop of `process_queue`, with the length that is reported to the guest. -/
def processChain (s : Active) (chain : Chain) : Except Panic (Nat × Active) :=
  match parse chain.guest chain.descs with
  | .error _ => .ok (0, s)
  | .ok (req, statusAddr) => do
    match ← s.processRequest checks chain.host req with
    | (none, s) => return (0, s)
    | (some resp, s) => return (sendResponse chain.guest statusAddr resp, s)

/-- The used descriptors and the state after the loop. -/
def processQueue (s : Active) : List Chain → Except Panic (List (UInt16 × Nat) × Active)
  | [] => .ok ([], s)
  | chain :: chains => do
    let (len, s) ← s.processChain checks chain
    let (used, s) ← processQueue s chains
    return ((chain.headIndex, len) :: used, s)

end Active

/-! ## Calls of the host -/

def getMapRegionsNum (regionSize : Nat) : Nat :=
  (regionSize >>> mapRegionShift) + if regionSize &&& mapRegionMask > 0 then 1 else 0

namespace Mem

variable (checks : Bool) (factory : Factory)

/-- The regions from `index` on, `n` of them, are mapped one after another. -/
def mapFrom (mapRegions : List MapRegion) (index hostAddr guestAddr : Nat) : Nat → Except Panic (List MapRegion)
  | 0 => .ok mapRegions
  | n + 1 =>
    match mapRegions[index]? with
    | none => .error .index
    | some region => do
      let hostAddr' ← add checks hostAddr mapRegionSize
      let guestAddr' ← add checks guestAddr mapRegionSize
      mapFrom (mapRegions.set index { region with mapped := some (hostAddr, guestAddr) }) (index + 1) hostAddr'
        guestAddr' n

section Calls

variable (mem : Mem)

/-- The region number that belongs to a size; the last one if there is none. -/
def regionIndex (size : Nat) : Except Panic Nat :=
  if size >>> mapRegionShift ≥ mem.mapRegions.length then sub checks mem.mapRegions.length 1
  else .ok (size >>> mapRegionShift)

/-- The length of a map region; the last one may be shorter. -/
def lastLen (lastIndex : Nat) : Except Panic Nat :=
  if lastIndex + 1 = mem.mapRegions.length then sub checks mem.config.regionSize (lastIndex <<< mapRegionShift)
  else .ok mapRegionSize

/-- A map region that is not mapped, with its slot. -/
def unmapped (mapRegions : List MapRegion) (index : Nat) : Option (Nat × UInt32) :=
  match mapRegions[index]? with
  | some region => if region.mapped.isNone then some (index, region.slot) else none
  | none => none

/-- Map the regions up to a new size; none if a region cannot be created. -/
def mapNew (newsize : Nat) : Except Panic (Option (List MapRegion)) := do
  let firstIndex ← mem.regionIndex checks mem.config.usableRegionSize
  let lastIndex ← mem.regionIndex checks newsize
  let stop ← add checks lastIndex 1
  match (List.range' firstIndex (stop - firstIndex)).findSome? (unmapped mem.mapRegions) with
  | none => return some mem.mapRegions
  | some (firstIndex, slot) =>
    let guestAddr ← add checks mem.config.addr (firstIndex <<< mapRegionShift)
    let regionLen ← add checks ((lastIndex - firstIndex) <<< mapRegionShift) (← mem.lastLen checks lastIndex)
    match factory guestAddr regionLen slot with
    | none => return none
    | some hostAddr =>
      return some (← mapFrom checks mem.mapRegions firstIndex hostAddr guestAddr (lastIndex - firstIndex + 1))

/-- The map regions for a new size: only a larger usable region needs more of them. -/
def growRegions (newsize : Nat) : Except Panic (Option (List MapRegion)) :=
  if newsize > mem.config.usableRegionSize ∧ mem.multiRegion then mem.mapNew checks factory newsize
  else .ok (some mem.mapRegions)

def newsize (config : VirtioMemConfig) (alignment : Nat) : Except Panic Nat := do
  let extent ← add checks config.requestedSize (2 * alignment)
  if config.requestedSize = 0 then return 0
  else return (min config.regionSize extent) &&& (U64.max ^^^ (config.blockSize - 1))

def resizeUsableRegion (canShrink : Bool) : Except Panic (Except Error Unit × Mem) := do
  let newsize ← newsize checks mem.config mem.alignment
  match ← mem.growRegions checks factory newsize with
  | none => return (.error .createRegion, mem)
  | some mapRegions =>
    if newsize < mem.config.usableRegionSize ∧ !canShrink then return (.ok (), { mem with mapRegions := mapRegions })
    else
      return (.ok (), { mem with
        mapRegions := mapRegions
        config := { mem.config with usableRegionSize := newsize } })

/-- `notified` says whether the notifier succeeds. -/
def setRequestedSize (requestedSizeMb : Nat) (notified : Bool) :
    Except Panic (Except Error Unit × Mem) := do
  let requestedSize ← mul checks (← mul checks requestedSizeMb 1024) 1024
  if requestedSize > mem.capacity ∨ requestedSize % defaultBlockSize ≠ 0 then return (.error .invalidInput, mem)
  else
    match ← resizeUsableRegion checks factory
        { mem with config := { mem.config with requestedSize := requestedSize } } false with
    | (.error e, mem) => return (.error e, mem)
    | (.ok (), mem) => return (if notified then .ok () else .error .notify, mem)

/-- The largest power of two from `2 ^ 27 * 2 ^ n` down that divides the boot memory, or `2 ^ 27`. -/
def probeAlignment (bootMemByte : Nat) : Nat → Nat
  | 0 => defaultBlockAlignment
  | n + 1 =>
    let bz := defaultBlockAlignment <<< (n + 1)
    if bootMemByte &&& (bz - 1) = 0 then bz else probeAlignment bootMemByte n

def alignmentFor (bootMemByte : Nat) : Nat :=
  if bootMemByte < bootMemSizeForLargeBlock then defaultBlockAlignment
  else probeAlignment bootMemByte 4  -- from 2 GiB down

def new (capacity requestedSizeMib : Nat) (multiRegion : Bool) (bootMemByte : Nat) :
    Except Panic (Except Error Mem) := do
  let alignment := alignmentFor bootMemByte
  let bytes ← mul checks (← mul checks capacity 1024) 1024
  let usableExtent := 2 * alignment
  let capacity := (← sub checks (← add checks bytes usableExtent) 1) &&& (U64.max ^^^ (usableExtent - 1))
  let requestedSize ← mul checks (← mul checks requestedSizeMib 1024) 1024
  if capacity = 0 ∨ requestedSize > capacity ∨ requestedSize % defaultBlockSize ≠ 0 then
    return .error .invalidInput
  else
    return .ok {
      config := ⟨defaultBlockSize, 0, capacity, 0, 0, requestedSize⟩
      capacity := capacity
      alignment := alignment
      multiRegion := multiRegion && !decide (capacity ≤ mapRegionSize)
      mapRegions := []
      hostFd := none }

def slotNum : Nat := if mem.multiRegion then getMapRegionsNum mem.config.regionSize else 1

/-- The map regions when the device gets its slots; none if the only region cannot be created. -/
def initialRegions (slotRes : List UInt32) : Option (List MapRegion) :=
  if mem.mapRegions ≠ [] then some mem.mapRegions
  else if mem.multiRegion then some (slotRes.map fun slot => ⟨slot, none⟩)
  else
    match slotRes with
    | [] => none
    | slot :: _ =>
      (factory mem.config.addr mem.config.regionSize slot).map fun hostAddr =>
        [⟨slot, some (hostAddr, mem.config.addr)⟩]

def setResource (memRes : List (Nat × Nat)) (slotRes : List UInt32) :
    Except Panic (Except Error Unit × Mem) :=
  match memRes with
  | [(addr, size)] =>
    if slotRes.length ≠ mem.slotNum ∨ size ≠ mem.config.regionSize then .ok (.error .invalidResource, mem)
    else
      let mem := { mem with config := { mem.config with addr := addr } }
      match initialRegions factory mem slotRes with
      | none => .ok (.error .createRegion, mem)
      | some mapRegions => resizeUsableRegion checks factory { mem with mapRegions := mapRegions } false
  | _ => .ok (.error .invalidResource, mem)

def activate : Option Active :=
  if mem.mapRegions.length ≠ mem.slotNum then none
  else some { mem := mem, memState := List.replicate (mem.config.regionSize / mem.config.blockSize) false }

end Calls

end Mem

end Kata.VirtioMem
