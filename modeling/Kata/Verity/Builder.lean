import Kata.Lib.LittleEndian
import Kata.Lib.Traced
import Kata.Lib.U64

/-!
# Kata.Verity.Builder

The builder of dm-verity hash trees (`tardev-snapshotter/verity/src/lib.rs`). `Verity::new` computes
the number of levels and where each of them begins in the output, `traverse_file` reads the data
block by block, and `add_block` hands a hash block to the writer whenever a level is full;
`finalize` writes the levels that are not.

Level 0 is the root. The file is read at places the writer does not write to, so that its contents
are fixed. Sizes in memory (`usize`) do not overflow; offsets and sizes of the file (`u64`) do, with
an error or by wrapping around as `checks` says.
-/

namespace Kata.Verity

open Lib

abbrev Bytes := List UInt8

/-- `T: Digest`: a function to a fixed number of bytes. -/
structure Digest where
  outputSize : Nat
  pos : 0 < outputSize
  hash : Bytes → Vector UInt8 outputSize

inductive Error where
  | overflow
  | indexOutOfBounds
  | divisionByZero
  | diverged  -- a loop has not ended within the given number of rounds
  | unexpectedBlock
  | unexpectedEof
  | writer (e : String)
deriving DecidableEq, Repr

/-- The errors that are panics; the others are returned as `io::Error`. -/
def Error.isPanic : Error → Bool
  | .overflow | .indexOutOfBounds | .divisionByZero | .diverged => true
  | .unexpectedBlock | .unexpectedEof | .writer _ => false

structure SuperBlock where
  dataBlockSize : Nat
  hashBlockSize : Nat
  dataBlockCount : Nat
deriving DecidableEq, Repr

-- `data_block_size as u32` and `hash_block_size as u32` keep the low bytes.
def SuperBlock.asBytes (sb : SuperBlock) : Bytes :=
  leBytes 4 sb.dataBlockSize ++ leBytes 4 sb.hashBlockSize ++ leBytes 8 sb.dataBlockCount

structure Level where
  nextIndex : Nat
  fileOffset : Nat
  data : Bytes
deriving DecidableEq, Repr

structure Verity where
  levels : List Level
  seeded : Bytes  -- the salt, which every hasher has been fed with
  dataBlockSize : Nat
  hashBlockSize : Nat
  blockRemainingCount : Nat
  superBlock : SuperBlock
deriving DecidableEq, Repr

abbrev VerityM := Traced Error (Bytes × Nat)

variable (dg : Digest) (checks : Bool)

/-! ## New -/

/-- `while max_size < data_size { count += 1; max_size *= .. }` -/
def countLevels (hashes dataSize : Nat) : (fuel count maxSize : Nat) → Except Error Nat
  | 0, _, _ => .error .diverged
  | fuel + 1, count, maxSize =>
    if maxSize < dataSize then
      match U64.mul checks Error.overflow maxSize hashes with
      | .error e => .error e
      | .ok maxSize => countLevels hashes dataSize fuel (count + 1) maxSize
    else .ok count

def pow (a e : Nat) : Except Error Nat :=
  if a ^ e ≤ U64.max then .ok (a ^ e)
  else if checks then .error .overflow
  else .ok (a ^ e % 2 ^ 64)

def div (a b : Nat) : Except Error Nat := if b = 0 then .error .divisionByZero else .ok (a / b)

/-- The number of hash blocks of the level that is `e` levels above the data. -/
def blockCount (hashes dataBlockSize dataSize e : Nat) : Except Error Nat := do
  let factor ← pow checks hashes e
  let entrySize ← U64.mul checks .overflow dataBlockSize factor
  let sum ← U64.add checks .overflow dataSize entrySize
  let sum ← U64.sub checks .overflow sum 1
  div sum entrySize

/-- The file offsets of the `e` lowest levels, the highest of them first. -/
def levelOffsets (hashes dataBlockSize hashBlockSize dataSize : Nat) : Nat → Nat → Except Error (List Nat)
  | 0, _ => .ok []
  | e + 1, writeFileOffset => do
    let count ← blockCount checks hashes dataBlockSize dataSize (e + 1)
    let size ← U64.mul checks .overflow hashBlockSize count
    let next ← U64.add checks .overflow writeFileOffset size
    let rest ← levelOffsets hashes dataBlockSize hashBlockSize dataSize e next
    .ok (writeFileOffset :: rest)

def new (fuel dataSize dataBlockSize hashBlockSize : Nat) (salt : Bytes) (writeFileOffset : Nat) :
    Except Error Verity := do
  let hashes := hashBlockSize / dg.outputSize
  let levelCount ← countLevels checks hashes dataSize fuel 0 dataBlockSize
  let offsets ← levelOffsets checks hashes dataBlockSize hashBlockSize dataSize levelCount writeFileOffset
  let blockCount ← div dataSize dataBlockSize
  .ok
    { levels := offsets.map fun offset =>
        { nextIndex := 0, fileOffset := offset, data := List.replicate hashBlockSize 0 }
      seeded := salt
      dataBlockSize := dataBlockSize
      hashBlockSize := hashBlockSize
      blockRemainingCount := blockCount
      superBlock :=
        { dataBlockSize := dataBlockSize, hashBlockSize := hashBlockSize, dataBlockCount := blockCount } }

/-! ## Levels -/

def moreBlocks (v : Verity) : Bool := 0 < v.blockRemainingCount

def digest (v : Verity) (block : Bytes) : Bytes := (dg.hash (v.seeded ++ block)).toList

/-- `data[start..][..src.len()].copy_from_slice(src)` -/
def copyFromSlice (data : Bytes) (start : Nat) (src : Bytes) : Except Error Bytes :=
  if start + src.length ≤ data.length then .ok (data.take start ++ src ++ data.drop (start + src.length))
  else .error .indexOutOfBounds

def levelAt (v : Verity) (l : Nat) : Except Error Level :=
  match v.levels[l]? with
  | none => .error .indexOutOfBounds
  | some level => .ok level

def setLevel (v : Verity) (l : Nat) (level : Level) : Verity := { v with levels := v.levels.set l level }

/-- Whether the level is full now. -/
def addHash (v : Verity) (l : Nat) (hash : Bytes) : Except Error (Bool × Verity) := do
  let level ← levelAt v l
  let data ← copyFromSlice level.data (level.nextIndex * dg.outputSize) hash
  .ok (decide (v.hashBlockSize / dg.outputSize ≤ level.nextIndex + 1),
    setLevel v l { level with data := data, nextIndex := level.nextIndex + 1 })

-- Slicing panics if the used part is longer than the data.
def finalizeLevel (v : Verity) (l : Nat) : Except Error Verity := do
  let level ← levelAt v l
  let used := level.nextIndex * dg.outputSize
  if used ≤ level.data.length then
    .ok (setLevel v l
      { level with data := level.data.take used ++ List.replicate (level.data.length - used) 0, nextIndex := 0 })
  else .error .indexOutOfBounds

variable (writer : List (Bytes × Nat) → Bytes × Nat → Except Error Unit)

/-- Write the level's block, and make room for the next one. -/
def emit (v : Verity) (l : Nat) : VerityM (Bytes × Verity) := do
  let v ← Traced.lift (finalizeLevel dg v l)
  let level ← Traced.lift (levelAt v l)
  Traced.call writer (level.data, level.fileOffset)
  let offset ← Traced.lift (U64.add checks .overflow level.fileOffset v.hashBlockSize)
  pure (level.data, setLevel v l { level with fileOffset := offset })

def uplevel (v : Verity) (l : Nat) : VerityM (Bool × Verity) := do
  let (block, v) ← emit dg checks writer v l
  Traced.lift (addHash dg v (l - 1) (digest dg v block))

/-- Go up the levels as far as it can. -/
def goUp : Nat → Verity → VerityM Verity
  | 0, v => pure v
  | l + 1, v => do
    let (full, v) ← uplevel dg checks writer v (l + 1)
    if full then goUp l v else pure v

def addBlock (v : Verity) (b : Bytes) : VerityM Verity :=
  if v.blockRemainingCount = 0 then Traced.throw .unexpectedBlock
  else do
    let v := { v with blockRemainingCount := v.blockRemainingCount - 1 }
    let count := v.levels.length
    let last ← Traced.lift (U64.sub checks .overflow count 1)
    let (full, v) ← Traced.lift (addHash dg v last (digest dg v b))
    if full then goUp dg checks writer (count - 1) v else pure v

/-! ## The file -/

/-- `while l > 0 { self.uplevel(l, ..)?; l -= 1; }` -/
def upAll : Nat → Verity → VerityM Verity
  | 0, v => pure v
  | l + 1, v => do
    let (_, v) ← uplevel dg checks writer v (l + 1)
    upAll l v

/-- Write all levels from the lowest one that holds digests. -/
def flush : Nat → Verity → VerityM Verity
  | 0, v => pure v
  | l + 1, v => do
    let level ← Traced.lift (levelAt v (l + 1))
    if level.nextIndex ≠ 0 then upAll dg checks writer (l + 1) v else flush l v

def writeSuperBlock (v : Verity) : VerityM Unit := do
  let last ← Traced.lift (levelAt v (v.levels.length - 1))
  let offset ← Traced.lift (U64.add checks .overflow last.fileOffset 4096)
  let offset ← Traced.lift (U64.sub checks .overflow offset 512)
  Traced.call writer (v.superBlock.asBytes, offset)
  let offset ← Traced.lift (U64.add checks .overflow last.fileOffset 4095)
  Traced.call writer ([0], offset)

def finalize (v : Verity) (writeSuperblock : Bool) : VerityM Bytes := do
  let v ← flush dg checks writer (v.levels.length - 1) v
  let (block, v) ← emit dg checks writer v 0
  if writeSuperblock then do
    writeSuperBlock checks writer v
    pure (digest dg v block)
  else pure (digest dg v block)

def readExact (file : Bytes) (offset len : Nat) : Except Error Bytes :=
  if offset + len ≤ file.length then .ok ((file.drop offset).take len) else .error .unexpectedEof

/-- `while verity.more_blocks() { .. }`, which takes as many rounds as there are blocks. -/
def addBlocks (file : Bytes) : (rounds readOffset : Nat) → Verity → VerityM Verity
  | 0, _, v => pure v
  | rounds + 1, readOffset, v =>
    if moreBlocks v then do
      let buf ← Traced.lift (readExact file readOffset v.dataBlockSize)
      let v ← addBlock dg checks writer v buf
      let readOffset ← Traced.lift (U64.add checks .overflow readOffset v.dataBlockSize)
      addBlocks file rounds readOffset v
    else pure v

def traverseFile (file : Bytes) (readOffset : Nat) (writeSuperblock : Bool) (v : Verity) : VerityM Bytes := do
  let v ← addBlocks dg checks writer file v.blockRemainingCount readOffset v
  finalize dg checks writer v writeSuperblock

/-- `Verity::new` followed by `traverse_file`, as all callers have it. -/
def newTraverse (fuel dataSize dataBlockSize hashBlockSize : Nat) (salt : Bytes)
    (writeFileOffset : Nat) (file : Bytes)
    (readOffset : Nat) (writeSuperblock : Bool) : VerityM Bytes := do
  let v ← Traced.lift (new dg checks fuel dataSize dataBlockSize hashBlockSize salt writeFileOffset)
  traverseFile dg checks writer file readOffset writeSuperblock v

def appendTree (fuel : Nat) (file : Bytes) : VerityM Bytes :=
  newTraverse dg checks writer fuel file.length 4096 4096 (List.replicate dg.outputSize 0) file.length file 0 true

def noWrite (_ : List (Bytes × Nat)) (_ : Bytes × Nat) : Except Error Unit := .ok ()

end Kata.Verity
