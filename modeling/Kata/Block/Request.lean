import Kata.Allocator.Range
import Kata.Lib.Outcome

/-!
# Kata.Block.Request

Requests of the virtio block device (`dbs_virtio_devices/src/block/request.rs`): how a descriptor
chain is parsed, the capacity check, and the bytes of the disk that a request reads or writes.

The check looks at each data descriptor as if it stood alone at `sector << 9`, while the transfer
goes on where the descriptor before has ended. `execute_safe_iff` says for which requests the
transfer stays in the disk and in its place: those with `sector * 512` plus the sum of all lengths
up to the capacity.

What guest memory and the disk do is a parameter (`Io`): a transfer can stop early or fail.
-/

namespace Kata.Block

open Allocator Lib

def sectorShift : Nat := 9
def sectorSize : Nat := 1 <<< sectorShift

inductive RequestType where
  | in_
  | out
  | flush
  | getDeviceId
  | unsupported (t : UInt32)
deriving DecidableEq, Repr

def RequestType.from (value : UInt32) : RequestType :=
  if value = 0 then .in_
  else if value = 1 then .out
  else if value = 4 then .flush
  else if value = 8 then .getDeviceId
  else .unsupported value

inductive Error where
  | descriptorChainTooShort
  | unexpectedWriteOnlyDescriptor
  | unexpectedReadOnlyDescriptor
  | descriptorLengthTooBig
  | descriptorLengthTooSmall
  | invalidGuestAddress (addr : U64)
  | guestMemory
  | invalidOffset
deriving DecidableEq, Repr

inductive ExecuteError where
  | badRequest (e : Error)
  | flush
  | read
  | seek
  | write
  | getDeviceId
  | unsupported (t : UInt32)
deriving DecidableEq, Repr

structure IoDataDesc where
  dataAddr : U64
  dataLen : U64  -- `usize`
deriving DecidableEq, Repr

structure Request where
  requestType : RequestType
  sector : U64
  statusAddr : U64
  requestIndex : UInt16
deriving DecidableEq, Repr

/-! ## Parsing -/

structure Descriptor where
  addr : U64
  len : UInt32
  isWriteOnly : Bool
  hasNext : Bool
deriving DecidableEq, Repr

/-- What `parse` asks of guest memory: the type and the sector in the header, and whether an address
is there. -/
structure GuestMemory where
  readHeader : U64 → Option (UInt32 × U64)
  addressInRange : U64 → Bool

namespace Request

def checkRequest (req : Request) (desc : Descriptor) (maxSize : UInt32) : Except Error Unit :=
  match req.requestType with
  | .out =>
    if desc.isWriteOnly then .error .unexpectedWriteOnlyDescriptor
    else if desc.len > maxSize then .error .descriptorLengthTooBig
    else .ok ()
  | .in_ =>
    if !desc.isWriteOnly then .error .unexpectedReadOnlyDescriptor
    else if desc.len > maxSize then .error .descriptorLengthTooBig
    else .ok ()
  | .getDeviceId => if !desc.isWriteOnly then .error .unexpectedReadOnlyDescriptor else .ok ()
  | _ => .ok ()

def dataDesc (desc : Descriptor) : IoDataDesc :=
  ⟨desc.addr, ⟨desc.len.toNat, Nat.lt_trans desc.len.toNat_lt (by decide)⟩⟩

/-- The loop over the data descriptors, with `desc` as the current one; it returns the status
descriptor. -/
def parseData (req : Request) (maxSize : UInt32) (dataDescs : List IoDataDesc) (desc : Descriptor) :
    List Descriptor → Except Error (Descriptor × List IoDataDesc)
  | [] =>
    if desc.hasNext then do
      req.checkRequest desc maxSize
      .error .descriptorChainTooShort
    else .ok (desc, dataDescs)
  | next :: rest =>
    if desc.hasNext then do
      req.checkRequest desc maxSize
      parseData req maxSize (dataDescs ++ [dataDesc desc]) next rest
    else .ok (desc, dataDescs)

/-- Only flush requests are allowed to skip the data descriptor. -/
def parseRest (req : Request) (maxSize : UInt32) (desc : Descriptor) (rest : List Descriptor) :
    Except Error (Descriptor × List IoDataDesc) :=
  if !desc.hasNext then
    if req.requestType ≠ .flush then .error .descriptorChainTooShort else .ok (desc, [])
  else req.parseData maxSize [] desc rest

def checkStatus (mem : GuestMemory) (status : Descriptor) : Except Error Unit :=
  if !status.isWriteOnly then .error .unexpectedReadOnlyDescriptor
  else if status.len < 1 then .error .descriptorLengthTooSmall
  else if !mem.addressInRange status.addr then .error (.invalidGuestAddress status.addr)
  else .ok ()

def parse (mem : GuestMemory) (headIndex : UInt16) (maxSize : UInt32) :
    List Descriptor → Except Error (Request × List IoDataDesc)
  | [] => .error .descriptorChainTooShort
  | head :: chain =>
    if head.isWriteOnly then .error .unexpectedWriteOnlyDescriptor
    else
      match mem.readHeader head.addr, chain with
      | none, _ => .error .guestMemory
      | some _, [] => .error .descriptorChainTooShort
      | some (type, sector), desc :: rest => do
        let req : Request := ⟨.from type, sector, 0, headIndex⟩
        let (status, dataDescs) ← req.parseRest maxSize desc rest
        checkStatus mem status
        return ({ req with statusAddr := status.addr }, dataDescs)

/-! ## Execution -/

/-- One call of `read_from` or `write_to`: the number of bytes that are moved, and whether it
succeeds. -/
structure Transfer where
  moved : Nat
  ok : Bool

/-- What the disk and guest memory answer, for each descriptor in turn. -/
structure Io where
  seek : Bool
  transfer : Nat → IoDataDesc → Transfer
  flush : Nat → Bool
  writeSlice : Nat → Bool
  moved_le : ∀ i d, (transfer i d).moved ≤ d.dataLen.val

inductive Fault where
  | panic (p : Panic)
  | error (e : ExecuteError)
deriving DecidableEq, Repr

/-- The bytes of the disk that are read or written, in order, and the answer. -/
structure Trace where
  touched : List Nat
  result : Except Fault UInt32

def Trace.after (bytes : List Nat) (t : Trace) : Trace := { t with touched := bytes ++ t.touched }

section Execute

-- `checks` is the build setting `overflow-checks`
variable (checks : Bool)

/-- `self.sector << SECTOR_SHIFT`: the upper bits are lost. -/
def seekOffset (req : Request) : Nat := (req.sector.val <<< sectorShift) % 2 ^ 64

def checkCapacity (req : Request) (capacity : U64) : List IoDataDesc → Except Panic (Except ExecuteError Unit)
  | [] => .ok (.ok ())
  | d :: rest => do
    let top := (← subU64 checks (← addU64 checks d.dataLen sectorSize) 1) &&& (u64Max ^^^ (sectorSize - 1))
    if u64Max < top + req.seekOffset then return .error (.badRequest .invalidOffset)
    else if top + req.seekOffset > capacity.val then return .error (.badRequest .invalidOffset)
    else checkCapacity req capacity rest

/-- The loop of `execute`, for the descriptor number `i` on; `pos` is the position of the disk. -/
def executeLoop (io : Io) (req : Request) (diskIdLen : UInt32) (i pos len : Nat) : List IoDataDesc → Trace
  | [] => ⟨[], .ok (UInt32.ofNat len)⟩
  | d :: rest =>
    match req.requestType with
    | .in_ =>
      let t := io.transfer i d
      if t.ok then
        match addU64 checks len d.dataLen with
        | .ok len =>
          (executeLoop io req diskIdLen (i + 1) (pos + t.moved) len rest).after (List.range' pos t.moved)
        | .error p => ⟨List.range' pos t.moved, .error (.panic p)⟩
      else ⟨List.range' pos t.moved, .error (.error .read)⟩
    | .out =>
      let t := io.transfer i d
      if t.ok then
        (executeLoop io req diskIdLen (i + 1) (pos + t.moved) len rest).after (List.range' pos t.moved)
      else ⟨List.range' pos t.moved, .error (.error .write)⟩
    | .flush =>
      if io.flush i then executeLoop io req diskIdLen (i + 1) pos len rest
      else ⟨[], .error (.error .flush)⟩
    | .getDeviceId =>
      if d.dataLen.val < diskIdLen.toNat then ⟨[], .error (.error (.badRequest .invalidOffset))⟩
      else if io.writeSlice i then ⟨[], .ok diskIdLen⟩
      else ⟨[], .error (.error .getDeviceId)⟩
    | .unsupported t => ⟨[], .error (.error (.unsupported t))⟩

def execute (io : Io) (req : Request) (capacity : U64) (dataDescs : List IoDataDesc) (diskIdLen : UInt32) :
    Trace :=
  match req.checkCapacity checks capacity dataDescs with
  | .error p => ⟨[], .error (.panic p)⟩
  | .ok (.error e) => ⟨[], .error (.error e)⟩
  | .ok (.ok ()) =>
    if io.seek then req.executeLoop checks io diskIdLen 0 req.seekOffset 0 dataDescs
    else ⟨[], .error (.error .seek)⟩

end Execute

/-! ## Where a transfer goes -/

/-- The sum of the lengths. -/
def total (dataDescs : List IoDataDesc) : Nat := (dataDescs.map fun d => d.dataLen.val).sum

/-- The request reads or writes the disk. -/
def isData (req : Request) : Prop := req.requestType = .in_ ∨ req.requestType = .out

/-- The bytes are those from `sector * 512` on, and they are in the disk. -/
structure Safe (req : Request) (capacity : U64) (t : Trace) : Prop where
  exact : t.touched = List.range' (req.sector.val * 512) t.touched.length
  inside : ∀ byte ∈ t.touched, byte < capacity.val

variable {checks : Bool} {io : Io} {req : Request} {diskIdLen : UInt32} {i pos len : Nat} {capacity : U64}
  {dataDescs : List IoDataDesc}

theorem touched_none (h : ¬ req.isData) : (req.executeLoop checks io diskIdLen i pos len dataDescs).touched = [] := by
  induction dataDescs generalizing i with
  | nil => rfl
  | cons d rest ih =>
    unfold executeLoop
    cases ht : req.requestType with
    | in_ => exact absurd (.inl ht) h
    | out => exact absurd (.inr ht) h
    | flush =>
      simp only
      split
      · exact ih
      · rfl
    | getDeviceId =>
      simp only
      split
      · rfl
      · split <;> rfl
    | unsupported t => rfl

/-- The bytes follow each other from the position on, up to the sum of the lengths. -/
theorem touched_range (checks : Bool) (io : Io) (req : Request) (diskIdLen : UInt32) (i pos len : Nat)
    (dataDescs : List IoDataDesc) :
    ∃ k ≤ total dataDescs, (req.executeLoop checks io diskIdLen i pos len dataDescs).touched = List.range' pos k := by
  by_cases hd : req.isData
  · induction dataDescs generalizing i pos len with
    | nil => exact ⟨0, Nat.le_refl _, rfl⟩
    | cons d rest ih =>
      have hmoved := io.moved_le i d
      have htotal : total (d :: rest) = d.dataLen.val + total rest := rfl
      have hstop : ∃ k ≤ total (d :: rest), List.range' pos (io.transfer i d).moved = List.range' pos k :=
        ⟨_, by omega, rfl⟩
      have hgo : ∀ len', ∃ k ≤ total (d :: rest),
          List.range' pos (io.transfer i d).moved ++
            (req.executeLoop checks io diskIdLen (i + 1) (pos + (io.transfer i d).moved) len' rest).touched =
          List.range' pos k := by
        intro len'
        obtain ⟨k, hk, hrest⟩ := ih (i + 1) (pos + (io.transfer i d).moved) len'
        refine ⟨(io.transfer i d).moved + k, by omega, ?_⟩
        rw [hrest, List.range'_append_1]
      unfold executeLoop
      rcases hd with ht | ht
      · rw [ht]
        simp only
        split
        · split
          · exact hgo _
          · exact hstop
        · exact hstop
      · rw [ht]
        simp only
        split
        · exact hgo _
        · exact hstop
  · exact ⟨0, Nat.zero_le _, touched_none hd⟩

/-- Everything succeeds, and every transfer is complete. -/
def Io.complete : Io where
  seek := true
  transfer _ d := ⟨d.dataLen.val, true⟩
  flush _ := true
  writeSlice _ := true
  moved_le _ _ := Nat.le_refl _

/-- Complete transfers move all bytes, unless the sum of the lengths overflows on the way. -/
theorem touched_complete (hd : req.isData) (checks : Bool) (diskIdLen : UInt32) (i pos len : Nat)
    (dataDescs : List IoDataDesc) :
    (req.executeLoop checks Io.complete diskIdLen i pos len dataDescs).touched =
        List.range' pos (total dataDescs) ∨
      ∃ k, u64Max < len + k ∧
        (req.executeLoop checks Io.complete diskIdLen i pos len dataDescs).touched = List.range' pos k := by
  induction dataDescs generalizing i pos len with
  | nil => exact .inl rfl
  | cons d rest ih =>
    have htotal : total (d :: rest) = d.dataLen.val + total rest := rfl
    have hgo : ∀ len' ≤ len + d.dataLen.val,
        List.range' pos d.dataLen.val ++ (req.executeLoop checks Io.complete diskIdLen (i + 1)
            (pos + d.dataLen.val) len' rest).touched = List.range' pos (total (d :: rest)) ∨
          ∃ k, u64Max < len + k ∧ List.range' pos d.dataLen.val ++ (req.executeLoop checks Io.complete diskIdLen
            (i + 1) (pos + d.dataLen.val) len' rest).touched = List.range' pos k := by
      intro len' hlen
      rcases ih (i + 1) (pos + d.dataLen.val) len' with hrest | ⟨k, hk, hrest⟩
      · left
        rw [hrest, List.range'_append_1, htotal]
      · right
        exact ⟨d.dataLen.val + k, by omega, by rw [hrest, List.range'_append_1]⟩
    unfold executeLoop
    rcases hd with ht | ht
    · rw [ht]
      simp only [Io.complete, if_true]
      cases hadd : addU64 checks len d.dataLen.val with
      | ok len' => exact hgo len' (U64.add_le hadd)
      | error p => exact .inr ⟨d.dataLen.val, U64.add_eq_error hadd, rfl⟩
    · rw [ht]
      simp only [Io.complete, if_true]
      exact hgo len (Nat.le_add_right _ _)

theorem execute_passed (h : req.checkCapacity checks capacity dataDescs = .ok (.ok ())) :
    req.execute checks io capacity dataDescs diskIdLen =
      if io.seek then req.executeLoop checks io diskIdLen 0 req.seekOffset 0 dataDescs
      else ⟨[], .error (.error .seek)⟩ := by
  rw [execute, h]

theorem execute_refused (h : req.checkCapacity checks capacity dataDescs ≠ .ok (.ok ())) :
    (req.execute checks io capacity dataDescs diskIdLen).touched = [] := by
  unfold execute
  cases hc : req.checkCapacity checks capacity dataDescs with
  | error p => rfl
  | ok out =>
    cases out with
    | error e => rfl
    | ok u => exact absurd hc h

theorem seekOffset_of_lt (h : req.sector.val * 512 < 2 ^ 64) : req.seekOffset = req.sector.val * 512 := by
  rw [seekOffset, sectorShift, Nat.shiftLeft_eq, Nat.mod_eq_of_lt h]

theorem safe_nil {t : Trace} (h : t.touched = []) : Safe req capacity t := by
  refine ⟨?_, ?_⟩
  · rw [h]
    rfl
  · rw [h]
    exact nofun

theorem safe_of_le (hcap : req.sector.val * 512 + total dataDescs ≤ capacity.val) :
    Safe req capacity (req.executeLoop checks io diskIdLen 0 req.seekOffset 0 dataDescs) := by
  have hlt := capacity.isLt
  have hseek : req.seekOffset = req.sector.val * 512 := seekOffset_of_lt (by omega)
  obtain ⟨k, hk, htouched⟩ := touched_range checks io req diskIdLen 0 req.seekOffset 0 dataDescs
  rw [hseek] at htouched
  refine ⟨?_, ?_⟩
  · rw [hseek, htouched, List.length_range']
  · intro byte hbyte
    rw [hseek, htouched, List.mem_range'_1] at hbyte
    omega

/-- Whatever the disk does, a request stays in its place if and only if it passes the check only
with all its lengths inside the disk, from `sector * 512` on. -/
theorem execute_safe_iff (checks : Bool) (req : Request) (capacity : U64) (dataDescs : List IoDataDesc)
    (diskIdLen : UInt32) :
    (∀ io, Safe req capacity (req.execute checks io capacity dataDescs diskIdLen)) ↔
      (req.isData → req.checkCapacity checks capacity dataDescs = .ok (.ok ()) →
        total dataDescs = 0 ∨ req.sector.val * 512 + total dataDescs ≤ capacity.val) := by
  have hcap : capacity.val ≤ u64Max := Nat.le_of_lt_succ capacity.isLt
  constructor
  · intro h hd hcheck
    have hsafe := h Io.complete
    rw [execute_passed hcheck, show Io.complete.seek = true from rfl, if_pos rfl] at hsafe
    obtain ⟨hexact, hinside⟩ := hsafe
    rcases touched_complete hd checks diskIdLen 0 req.seekOffset 0 dataDescs with hall | ⟨k, hk, hall⟩
    · rw [hall] at hexact hinside
      rw [List.length_range'] at hexact
      cases htotal : total dataDescs with
      | zero => exact .inl rfl
      | succ n =>
        right
        rw [htotal] at hexact hinside
        rw [List.range'_succ, List.range'_succ] at hexact
        have hstart : req.seekOffset = req.sector.val * 512 := (List.cons.inj hexact).1
        have hlast := hinside (req.seekOffset + n) (by rw [List.mem_range'_1]; omega)
        omega
    · -- more bytes than any disk has
      rw [hall] at hinside
      have hlast := hinside (req.seekOffset + (k - 1)) (by rw [List.mem_range'_1]; omega)
      omega
  · intro hcond io
    by_cases hcheck : req.checkCapacity checks capacity dataDescs = .ok (.ok ())
    · rw [execute_passed hcheck]
      split
      · by_cases hd : req.isData
        · rcases hcond hd hcheck with h0 | hle
          · obtain ⟨k, hk, htouched⟩ := touched_range checks io req diskIdLen 0 req.seekOffset 0 dataDescs
            refine safe_nil ?_
            rw [htouched, show k = 0 by omega]
            rfl
          · exact safe_of_le hle
        · exact safe_nil (touched_none hd)
      · exact safe_nil rfl
    · exact safe_nil (execute_refused hcheck)

/-- Two descriptors that fit alone, in a chain that is parsed: the second one is written behind the
end of a disk with 4096 bytes. -/
theorem second_descriptor_outside :
    parse ⟨fun _ => some (1, 7), fun _ => true⟩ 0 65536
        [⟨0, 16, false, true⟩, ⟨4096, 512, false, true⟩, ⟨8192, 512, false, true⟩, ⟨12288, 1, true, false⟩] =
      .ok (⟨.out, 7, 12288, 0⟩, [⟨4096, 512⟩, ⟨8192, 512⟩]) ∧
    checkCapacity true ⟨.out, 7, 12288, 0⟩ 4096 [⟨4096, 512⟩, ⟨8192, 512⟩] = .ok (.ok ()) ∧
    4096 ∈ (execute true Io.complete ⟨.out, 7, 12288, 0⟩ 4096 [⟨4096, 512⟩, ⟨8192, 512⟩] 20).touched := by
  decide +kernel

/-! ## One descriptor -/

theorem checkCapacity_le (h : req.checkCapacity checks capacity dataDescs = .ok (.ok ())) {d : IoDataDesc}
    (hd : d ∈ dataDescs) (hlen : d.dataLen.val + 512 ≤ u64Max) : req.seekOffset + d.dataLen.val ≤ capacity.val := by
  induction dataDescs with
  | nil => cases hd
  | cons d' rest ih =>
    unfold checkCapacity at h
    obtain ⟨sum, hsum, hrest⟩ := bind_eq_ok.mp h
    obtain ⟨top, htop, hrest'⟩ := bind_eq_ok.mp hrest
    simp only at hrest'
    split at hrest'
    · cases hrest'
    · split at hrest'
      · cases hrest'
      · rename_i hle
        cases hd with
        | head =>
          rw [show sectorSize = 512 from rfl, addU64_of_le hlen] at hsum
          cases hsum
          rw [subU64_of_le (by omega)] at htop
          cases htop
          have hround := and_compl_eq (v := d.dataLen.val + 512 - 1) (k := 9) (by omega) (by decide)
          rw [show sectorSize - 1 = 2 ^ 9 - 1 from rfl, hround] at hle
          omega
        | tail _ hd => exact ih hrest' hd

/-- A request with one data descriptor and a sector that fits is safe. -/
theorem execute_safe_single {d : IoDataDesc} (hlen : d.dataLen.val + 512 ≤ u64Max)
    (hsector : req.sector.val * 512 < 2 ^ 64) : Safe req capacity (req.execute checks io capacity [d] diskIdLen) := by
  by_cases hcheck : req.checkCapacity checks capacity [d] = .ok (.ok ())
  · have hle := checkCapacity_le hcheck (.head _) hlen
    rw [seekOffset_of_lt hsector] at hle
    rw [execute_passed hcheck]
    split
    · exact safe_of_le hle
    · exact safe_nil rfl
  · exact safe_nil (execute_refused hcheck)

/-! ## What a parsed request is -/

section Parse

variable {maxSize : UInt32} {desc status : Descriptor} {chain : List Descriptor} {descs descs' : List IoDataDesc}

theorem checkRequest_len (hd : req.isData) (h : req.checkRequest desc maxSize = .ok ()) :
    desc.len.toNat ≤ maxSize.toNat := by
  refine UInt32.le_iff_toNat_le.mp (UInt32.not_lt.mp fun hgt => ?_)
  unfold checkRequest at h
  -- a read and a write differ only in the direction that is checked first
  rcases hd with ht | ht
  all_goals
    rw [ht] at h
    simp only [gt_iff_lt, if_pos hgt] at h
    split at h <;> cases h

theorem parseData_data (hd : req.isData) (h : req.parseData maxSize descs desc chain = .ok (status, descs'))
    (hne : descs ≠ [] ∨ desc.hasNext = true) (hlen : ∀ d ∈ descs, d.dataLen.val ≤ maxSize.toNat) :
    descs' ≠ [] ∧ ∀ d ∈ descs', d.dataLen.val ≤ maxSize.toNat := by
  induction chain generalizing descs desc with
  | nil =>
    unfold parseData at h
    split at h
    · obtain ⟨_, _, h⟩ := bind_eq_ok.mp h
      cases h
    · rename_i hnext
      cases h
      exact ⟨hne.resolve_right hnext, hlen⟩
  | cons next rest ih =>
    unfold parseData at h
    split at h
    · obtain ⟨_, hcheck, h⟩ := bind_eq_ok.mp h
      refine ih h (.inl (by simp)) ?_
      intro d hmem
      rcases List.mem_append.mp hmem with hmem | hmem
      · exact hlen d hmem
      · rw [List.mem_singleton.mp hmem]
        exact checkRequest_len hd hcheck
    · rename_i hnext
      cases h
      exact ⟨hne.resolve_right hnext, hlen⟩

theorem parseRest_data (hd : req.isData) (h : req.parseRest maxSize desc chain = .ok (status, descs)) :
    descs ≠ [] ∧ ∀ d ∈ descs, d.dataLen.val ≤ maxSize.toNat := by
  unfold parseRest at h
  split at h
  · have hflush : req.requestType ≠ .flush := by
      rcases hd with ht | ht <;> (rw [ht]; exact nofun)
    rw [if_pos hflush] at h
    cases h
  · rename_i hnext
    rw [Bool.not_eq_true', Bool.not_eq_false] at hnext
    exact parseData_data hd h (.inr hnext) nofun

theorem parse_data {mem : GuestMemory} {headIndex : UInt16}
    (h : parse mem headIndex maxSize chain = .ok (req, descs)) (hd : req.isData) :
    descs ≠ [] ∧ ∀ d ∈ descs, d.dataLen.val ≤ maxSize.toNat := by
  cases chain with
  | nil => cases h
  | cons head chain =>
    simp only [parse] at h
    split at h
    · cases h
    · split at h
      · cases h
      · cases h
      · obtain ⟨⟨status, descs'⟩, hparse, hrest⟩ := bind_eq_ok.mp h
        obtain ⟨_, _, hret⟩ := bind_eq_ok.mp hrest
        cases hret
        refine parseRest_data ?_ hparse
        exact hd

/-- A read or write that the guest asks for with one data descriptor stays in the disk, if its
sector fits. -/
theorem parse_single_safe {mem : GuestMemory} {headIndex : UInt16} {d : IoDataDesc}
    (h : parse mem headIndex maxSize chain = .ok (req, [d])) (hd : req.isData)
    (hsector : req.sector.val * 512 < 2 ^ 64) :
    Safe req capacity (req.execute checks io capacity [d] diskIdLen) := by
  have hle := (parse_data h hd).2 d (.head _)
  have hmax := maxSize.toNat_lt
  refine execute_safe_single ?_ hsector
  simp only [u64Max]
  omega

theorem parse_single_safe_write :
    Safe ⟨.out, 7, 12288, 0⟩ 8192 (execute true Io.complete ⟨.out, 7, 12288, 0⟩ 8192 [⟨4096, 512⟩] 20) := by
  have hparse : parse ⟨fun _ => some (1, 7), fun _ => true⟩ 0 65536
      [⟨0, 16, false, true⟩, ⟨4096, 512, false, true⟩, ⟨12288, 1, true, false⟩] =
        .ok (⟨.out, 7, 12288, 0⟩, [⟨4096, 512⟩]) := by
    decide
  exact parse_single_safe hparse (.inr rfl) (by decide)

end Parse

end Request
end Kata.Block
