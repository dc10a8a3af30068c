import Kata.Lib.Pieces
import Kata.TarIndex.Index

/-!
# Kata.TarIndex.Records

Reading the records of the index back, as `read_from_prefix` does it for the packed little-endian
structures of `tarfs-defs`. A record whose fields fit their widths is read as it was written
(`Inode.read_of_prefix` and so on).
-/

namespace Kata.TarIndex

open Lib

/-- The field of `n` bytes at `o`. -/
def field (bs : Bytes) (o n : Nat) : Nat := ofLeBytes ((bs.drop o).take n)

variable {bs : Bytes}

theorem field_eq {o n v : Nat} (h : At bs o (leBytes n v)) (hv : v < 256 ^ n) : field bs o n = v := by
  unfold field
  rw [(slice_eq_iff (length_leBytes n v)).mpr h, ofLeBytes_leBytes, Nat.mod_eq_of_lt hv]

/-! ## Inodes -/

def Inode.readFromPrefix (bs : Bytes) : Option Inode :=
  if bs.length < sizeOfInode then none
  else some
    { mode := field bs 0 2
      flags := field bs 2 1
      hmtime := field bs 3 1
      owner := field bs 4 4
      group := field bs 8 4
      lmtime := field bs 12 4
      size := field bs 16 8
      offset := field bs 24 8 }

structure Inode.Fits (i : Inode) : Prop where
  mode : i.mode < 2 ^ 16
  flags : i.flags < 2 ^ 8
  hmtime : i.hmtime < 2 ^ 8
  owner : i.owner < 2 ^ 32
  group : i.group < 2 ^ 32
  lmtime : i.lmtime < 2 ^ 32
  size : i.size < 2 ^ 64
  offset : i.offset < 2 ^ 64

@[simp] theorem Inode.length_asBytes (i : Inode) : i.asBytes.length = sizeOfInode := by
  unfold Inode.asBytes
  simp only [List.length_append, length_leBytes]
  rfl

theorem Inode.read_of_prefix {i : Inode} (hi : i.Fits) (h : i.asBytes <+: bs) : Inode.readFromPrefix bs = some i := by
  have hlen := h.length_le
  have hat : At bs 0 i.asBytes := h
  unfold Inode.asBytes at hat
  simp only [at_append, List.length_append, length_leBytes] at hat
  obtain ⟨⟨⟨⟨⟨⟨⟨hmode, hflags⟩, hhmtime⟩, howner⟩, hgroup⟩, hlmtime⟩, hsize⟩, hoffset⟩ := hat
  rw [Inode.length_asBytes] at hlen
  unfold Inode.readFromPrefix
  rw [if_neg (Nat.not_lt.mpr hlen), field_eq hmode hi.mode, field_eq hflags hi.flags, field_eq hhmtime hi.hmtime,
    field_eq howner hi.owner, field_eq hgroup hi.group, field_eq hlmtime hi.lmtime, field_eq hsize hi.size,
    field_eq hoffset hi.offset]

/-! ## Directory entries -/

def DirEntry.readFromPrefix (bs : Bytes) : Option DirEntry :=
  if bs.length < sizeOfDirEntry then none
  else some
    { ino := field bs 0 8
      nameOffset := field bs 8 8
      nameLen := field bs 16 8
      etype := field bs 24 1 }

structure DirEntry.Fits (d : DirEntry) : Prop where
  ino : d.ino < 2 ^ 64
  nameOffset : d.nameOffset < 2 ^ 64
  nameLen : d.nameLen < 2 ^ 64
  etype : d.etype < 2 ^ 8

@[simp] theorem DirEntry.length_asBytes (d : DirEntry) : d.asBytes.length = sizeOfDirEntry := by
  unfold DirEntry.asBytes
  simp only [List.length_append, length_leBytes, List.length_replicate]
  rfl

theorem DirEntry.read_of_prefix {d : DirEntry} (hd : d.Fits) (h : d.asBytes <+: bs) :
    DirEntry.readFromPrefix bs = some d := by
  have hlen := h.length_le
  have hat : At bs 0 d.asBytes := h
  unfold DirEntry.asBytes at hat
  simp only [at_append, List.length_append, length_leBytes] at hat
  obtain ⟨⟨⟨⟨hino, hoffset⟩, hlength⟩, hetype⟩, -⟩ := hat
  rw [DirEntry.length_asBytes] at hlen
  unfold DirEntry.readFromPrefix
  rw [if_neg (Nat.not_lt.mpr hlen), field_eq hino hd.ino, field_eq hoffset hd.nameOffset, field_eq hlength hd.nameLen,
    field_eq hetype hd.etype]

theorem direntType_lt (mode : Nat) : direntType mode < 2 ^ 8 := by
  unfold direntType
  dsimp only
  repeat' split
  all_goals decide

/-! ## The super block -/

def SuperBlock.readFromPrefix (bs : Bytes) : Option SuperBlock :=
  if bs.length < 16 then none else some { inodeTableOffset := field bs 0 8, inodeCount := field bs 8 8 }

theorem SuperBlock.read_of_prefix {sb : SuperBlock} (hoffset : sb.inodeTableOffset < 2 ^ 64)
    (hcount : sb.inodeCount < 2 ^ 64) (h : sb.asBytes <+: bs) : SuperBlock.readFromPrefix bs = some sb := by
  have hlen := h.length_le
  have hat : At bs 0 sb.asBytes := h
  unfold SuperBlock.asBytes at hat hlen
  simp only [at_append, List.length_append, length_leBytes] at hat hlen
  unfold SuperBlock.readFromPrefix
  rw [if_neg (Nat.not_lt.mpr hlen), field_eq hat.1 hoffset, field_eq hat.2 hcount]

/-! ## The file -/

variable {file bytes : Bytes} {pos : Nat}

theorem prefix_writeAt (h : file.length ≤ pos) : file <+: writeAt file pos bytes := by
  unfold writeAt
  rw [List.take_of_length_le h, List.append_assoc, List.append_assoc]
  exact List.prefix_append file _

theorem writeAt_at (h : file.length ≤ pos) : At (writeAt file pos bytes) pos bytes := by
  unfold writeAt
  have hlen : (file.take pos ++ List.replicate (pos - file.length) (0 : UInt8)).length = pos := by
    rw [List.take_of_length_le h, List.length_append, List.length_replicate]
    omega
  have hat := at_of_append (u := bytes) (file.take pos ++ List.replicate (pos - file.length) (0 : UInt8))
    (file.drop (pos + bytes.length))
  rw [hlen] at hat
  exact hat

theorem length_writeAt (h : file.length ≤ pos) : (writeAt file pos bytes).length = pos + bytes.length := by
  unfold writeAt
  rw [List.take_of_length_le h, List.drop_of_length_le (by omega)]
  simp only [List.length_append, List.length_replicate, List.length_nil]
  omega

end Kata.TarIndex
