import Kata.Lib.Lists
import Kata.TarIndex.Paths
import Kata.TarIndex.Reader

/-!
# Kata.TarIndex.Resolve

Are all files of a layer found again? For archives without hard links and whiteouts, and an index
whose strings are right, every path resolves to what the last entry of the archive for this path
says exactly if (`Archive.Complete`)

* every directory on the way to an entry has an entry of its own, since a directory that was made on the way has no type,
* after an entry for a directory, everything in it comes again, since the entry takes away what was there before, and
* the owners fit 32 bits.

`found_iff` is the result.
-/

namespace Kata.TarIndex

open Lib

/-! ## What an entry of the archive is -/

def TarEntry.kind (f : TarEntry) : FileType :=
  match f.type with
  | .directory => .directory
  | .fifo => .namedPipe
  | .char => .charDevice
  | .block => .blockDevice
  | .symlink => .symlink
  | _ => .regularFile

/-- The type bits, size and offset of the entry of the tree. -/
inductive TarEntry.Makes (f : TarEntry) : Nat → Nat → Nat → Prop where
  | regular : f.type = .regular → Makes f S_IFREG f.size.toNat f.rawFilePosition.toNat
  | directory : f.type = .directory → Makes f S_IFDIR 0 0
  | fifo : f.type = .fifo → Makes f S_IFIFO 0 0
  | char (major minor : UInt32) : f.type = .char → f.deviceMajor = some major → f.deviceMinor = some minor →
      Makes f S_IFCHR 0 (minor.toNat ||| major.toNat <<< 32)
  | block (major minor : UInt32) : f.type = .block → f.deviceMajor = some major → f.deviceMinor = some minor →
      Makes f S_IFBLK 0 (minor.toNat ||| major.toNat <<< 32)
  | symlink (name : Bytes) (offset : Nat) : f.type = .symlink → f.linkName = some name →
    Makes f S_IFLNK name.length offset

section Makes

variable {f : TarEntry} {bits size offset : Nat}

theorem makes_of_device {m bits : Nat} {special : Option Bytes} {e : Entry}
    (h : f.device (m ||| bits) = .entry special e) :
    ∃ major minor, f.deviceMajor = some major ∧ f.deviceMinor = some minor ∧
      e = f.entry (m ||| bits) 0 (minor.toNat ||| major.toNat <<< 32) := by
  unfold TarEntry.device at h
  cases hmajor : f.deviceMajor with
  | none =>
    rw [hmajor] at h
    cases h
  | some major =>
    cases hminor : f.deviceMinor with
    | none =>
      rw [hmajor, hminor] at h
      cases h
    | some minor =>
      rw [hmajor, hminor] at h
      cases h
      exact ⟨major, minor, rfl, rfl, rfl⟩

theorem makes_of_read {special : Option Bytes} {e : Entry} (hread : f.read = .entry special e) :
    ∃ m bits size offset, f.mode = some m ∧ e = f.entry (m.toNat % 2 ^ 16 &&& 0x1ff ||| bits) size offset ∧
      f.Makes bits size offset := by
  unfold TarEntry.read at hread
  cases hmode : f.mode with
  | none =>
    rw [hmode] at hread
    cases hread
  | some m =>
    rw [hmode] at hread
    dsimp only at hread
    cases htype : f.type with
    | regular =>
      rw [htype] at hread
      cases hread
      exact ⟨m, _, _, _, rfl, rfl, .regular htype⟩
    | directory =>
      rw [htype] at hread
      cases hread
      exact ⟨m, _, _, _, rfl, rfl, .directory htype⟩
    | fifo =>
      rw [htype] at hread
      cases hread
      exact ⟨m, _, _, _, rfl, rfl, .fifo htype⟩
    | char =>
      rw [htype] at hread
      obtain ⟨major, minor, hmajor, hminor, he⟩ := makes_of_device hread
      exact ⟨m, _, _, _, rfl, he, .char major minor htype hmajor hminor⟩
    | block =>
      rw [htype] at hread
      obtain ⟨major, minor, hmajor, hminor, he⟩ := makes_of_device hread
      exact ⟨m, _, _, _, rfl, he, .block major minor htype hmajor hminor⟩
    | symlink =>
      rw [htype] at hread
      cases hlink : f.linkName with
      | none =>
        rw [hlink] at hread
        cases hread
      | some name =>
        rw [hlink] at hread
        dsimp only at hread
        split at hread <;> cases hread <;> exact ⟨m, _, _, _, rfl, rfl, .symlink name _ htype hlink⟩
    | link =>
      rw [htype] at hread
      dsimp only at hread
      split at hread <;> cases hread
    | other =>
      rw [htype] at hread
      cases hread

theorem TarEntry.Ordinary.makes (hf : f.Ordinary) :
    ∃ m bits size offset, f.mode = some m ∧ f.made = f.entry (m.toNat % 2 ^ 16 &&& 0x1ff ||| bits) size offset ∧
      f.Makes bits size offset := by
  obtain ⟨special, e, hread, hmade⟩ := hf.read_eq
  obtain ⟨m, bits, size, offset, hmode, rfl, hmakes⟩ := makes_of_read hread
  exact ⟨m, bits, size, offset, hmode, hmade, hmakes⟩

/-- The bits of a type are in its mask, and utarfs knows them. -/
theorem TarEntry.Makes.bits_eq (h : f.Makes bits size offset) :
    bits &&& S_IFMT = bits ∧ bits &&& 0o777 = 0 ∧
      ∀ mode, mode &&& S_IFMT = bits → fileType mode = some f.kind := by
  have hkind : ∀ {bits : Nat} {k : FileType}, fileType bits = some k → bits &&& S_IFMT = bits → f.kind = k →
      ∀ mode, mode &&& S_IFMT = bits → fileType mode = some f.kind := by
    intro bits k hk hbits hf mode hmode
    rw [hf, ← hk]
    unfold fileType
    rw [hmode, hbits]
  cases h with
  | regular htype => exact ⟨rfl, rfl, hkind (k := .regularFile) rfl rfl (by unfold TarEntry.kind; rw [htype])⟩
  | directory htype => exact ⟨rfl, rfl, hkind (k := .directory) rfl rfl (by unfold TarEntry.kind; rw [htype])⟩
  | fifo htype => exact ⟨rfl, rfl, hkind (k := .namedPipe) rfl rfl (by unfold TarEntry.kind; rw [htype])⟩
  | char major minor htype => exact ⟨rfl, rfl, hkind (k := .charDevice) rfl rfl (by unfold TarEntry.kind; rw [htype])⟩
  | block major minor htype => exact ⟨rfl, rfl, hkind (k := .blockDevice) rfl rfl
    (by unfold TarEntry.kind; rw [htype])⟩
  | symlink name offset htype => exact ⟨rfl, rfl, hkind (k := .symlink) rfl rfl (by unfold TarEntry.kind; rw [htype])⟩

theorem perm_eq (m : Nat) (hbits : bits &&& 0o777 = 0) : (m % 2 ^ 16 &&& 0x1ff ||| bits) &&& 0o777 = m &&& 0o777 := by
  have hlow : m % 2 ^ 16 &&& 0x1ff = m &&& 0x1ff := by
    rw [← Nat.and_two_pow_sub_one_eq_mod, Nat.and_assoc]
    rfl
  rw [hlow, Nat.and_or_distrib_right, hbits, Nat.or_zero, Nat.and_assoc]
  rfl

theorem device_numbers (major minor : UInt32) :
    (minor.toNat ||| major.toNat <<< 32) >>> 32 = major.toNat ∧
      (minor.toNat ||| major.toNat <<< 32) % 2 ^ 32 = minor.toNat := by
  have hminor : minor.toNat < 2 ^ 32 := minor.toNat_lt
  rw [Nat.or_comm, ← Nat.shiftLeft_add_eq_or_of_lt hminor, Nat.shiftLeft_eq, Nat.shiftRight_eq_div_pow]
  omega

end Makes

/-! ## Opening the file -/

theorem new_file {s : State} {t : Nat → Option Bytes} {contents : Bytes} (hs : s.Sound contents t) (xs : List Nat)
    (hlen : (s.file xs contents).length ≤ maxFileSize) :
    Tar.new (s.file xs contents) (s.file xs contents).length = .ok (opened xs contents (s.file xs contents)) := by
  have hw := file_written hs xs
  have hlength := length_file hs xs
  have hat : At (s.file xs contents) (align (s.names xs contents).2.1 + alignment - 512)
      (SuperBlock.asBytes { inodeTableOffset := contents.length, inodeCount := (s.numbered xs).2 }) :=
    (writeAt_at (first_fits hs xs)).mono (prefix_writeAt (second_fits hs xs _))
  have hcount : (firstVisits xs).length ≤ (s.file xs contents).length := by
    have hfile := hw.length
    unfold State.stringTable State.direntTable sizeOfInode at hfile
    omega
  have hcontents := hw.archive.length_le
  have hmax : maxFileSize < 2 ^ 64 := by decide
  rw [numbered_count hs] at hat
  have hoffset64 : contents.length < 2 ^ 64 := by omega
  have hcount64 : (firstVisits xs).length < 2 ^ 64 := by omega
  have hsb := SuperBlock.read_of_prefix hoffset64 hcount64 hat
  unfold Tar.new
  have hpos : (s.file xs contents).length - 512 = align (s.names xs contents).2.1 + alignment - 512 := by
    rw [hlength]
  rw [if_neg (Nat.lt_irrefl _), if_neg (by rw [hlength]; unfold alignment; omega), hpos, hsb]
  rfl

/-! ## What is shown -/

/-- The data of a regular file. -/
def TarEntry.data (contents : Bytes) (f : TarEntry) : Bytes := slice contents f.rawFilePosition.toNat f.size.toNat

/-- The data of regular files is in the archive. -/
def TarEntry.DataInside (contents : Bytes) (f : TarEntry) : Prop :=
  f.type = .regular → f.rawFilePosition.toNat + f.size.toNat ≤ contents.length

/-- The size and the data: the bytes of a file, the target of a symlink, the numbers of a device. -/
def TarEntry.SameData (checks : Bool) (contents : Bytes) (tar : Tar) (f : TarEntry) (x : FileAttr) : Prop :=
  match f.type with
  | .regular => x.size = f.size.toNat ∧
      ∀ offset size : Nat, tar.read checks x.ino offset size = .ok (slice (f.data contents) offset size)
  | .symlink => ∃ name, f.linkName = some name ∧ x.size = name.length ∧ tar.readlink checks x.ino = .ok name
  | .char | .block => x.size = 0 ∧ ∃ r major minor, tar.inode checks x.ino = .ok r ∧ f.deviceMajor = some major ∧
      f.deviceMinor = some minor ∧ r.offset >>> 32 = major.toNat ∧ r.offset % 2 ^ 32 = minor.toNat
  | .fifo => x.size = 0
  | _ => True

/-- The inode has what the entry of the archive says. -/
structure TarEntry.Shown (checks : Bool) (contents : Bytes) (tar : Tar) (f : TarEntry) (x : FileAttr) : Prop where
  kind : x.kind = f.kind
  perm : some x.perm = f.mode.map fun m => m.toNat &&& 0o777
  uid : x.uid = (f.uid.getD 0).toNat
  gid : x.gid = (f.gid.getD 0).toNat
  data : f.SameData checks contents tar x

section Attr

variable {s : State} {t : Nat → Option Bytes} {xs : List Nat} {contents file : Bytes} {a b c : Nat} {checks : Bool}
  {f : TarEntry}

theorem isType_iff {e : Entry} {type : Nat} : e.isType type = true ↔ e.mode &&& S_IFMT = type := decide_eq_true_iff

section

variable (hI : Indexed s t xs contents file)
include hI

/-- A directory has attributes. -/
theorem Indexed.attr_of_dir (ha : a ∈ xs) (hdir : (s.heap.cells a).isType S_IFDIR = true) :
    ∃ x, (opened xs contents file).attr checks (number xs a) = .ok x := by
  obtain ⟨r, hr, hd⟩ := hI.inode_eq ha checks
  obtain ⟨pre, post, hrows, -, hsize⟩ := hd.directory hdir
  have hkind : fileType (s.heap.cells a).mode = some .directory := by
    unfold fileType
    rw [isType_iff.mp hdir]
    rfl
  have hfile := hI.written.length
  have hrow := congrArg List.length hrows
  rw [List.length_append, List.length_append] at hrow
  refine ⟨_, hI.attr_eq ha hkind hr ?_⟩
  rw [hsize]
  unfold State.stringTable sizeOfDirEntry at *
  omega

theorem Indexed.symlink_eq (ha : a ∈ xs) (hlnk : (s.heap.cells a).isType S_IFLNK = true) (checks : Bool) :
    ∃ r name, (opened xs contents file).inode checks (number xs a) = .ok r ∧ t a = some name ∧ At file r.offset name ∧
      r.size = name.length ∧ r.offset + name.length ≤ file.length ∧ r.mode = (s.heap.cells a).mode := by
  have hdir : (s.heap.cells a).isType S_IFDIR = false := by
    refine decide_eq_false fun hdir => ?_
    rw [isType_iff.mp hlnk] at hdir
    exact absurd hdir (by decide)
  have hr := hI.inode_record ha checks
  rw [record_of_not_dir hI.sound hdir] at hr
  have hfile := hI.written.length
  have hsurvive := length_survivors_le hI.sound xs
  have hcontents := contents_le s xs contents
  unfold Entry.record at hr
  cases hsp : (s.heap.cells a).isSpecial with
  | true =>
    obtain ⟨htarget, hsize⟩ := specialTarget_of_special hI.sound hsp
    have hi : (firstVisits xs)[(firstVisits xs).idxOf a]? = some a := List.getElem?_idxOf (mem_firstVisits.mpr ha)
    have hsplit := congrArg (List.flatMap (s.specialTarget t))
      (List.take_append_drop ((firstVisits xs).idxOf a) (firstVisits xs))
    obtain ⟨hlt, hget⟩ := List.getElem?_eq_some_iff.mp hi
    rw [List.flatMap_append, List.drop_eq_getElem_cons hlt, hget, List.flatMap_cons] at hsplit
    have hlen := congrArg List.length hsplit
    rw [List.length_append, List.length_append] at hlen
    rw [if_pos hsp] at hr
    refine ⟨_, _, hr, htarget, hI.target_at ha, hsize, ?_, rfl⟩
    show s.targetOffset t xs contents _ + _ ≤ _
    unfold State.targetOffset
    unfold State.survivors at hsurvive
    omega
  | false =>
    obtain ⟨name, hname, hsize, hheader⟩ := (hI.sound.entry a).symlink hlnk
    obtain ⟨hoffset, hat⟩ := hheader (symlink_of_not_special hlnk hsp)
    have hle := List.IsPrefix.length_le hat
    rw [List.length_drop] at hle
    rw [if_neg (Bool.eq_false_iff.mp hsp)] at hr
    refine ⟨_, name, hr, hname, hat.mono hI.written.archive, hsize, ?_, rfl⟩
    show (s.heap.cells a).offset + _ ≤ _
    omega

theorem Indexed.read_eq {r : Inode}
    (hr : (opened xs contents file).inode checks (number xs a) = .ok r) (hreg : r.mode &&& S_IFMT = S_IFREG)
    (hoffset : r.offset = f.rawFilePosition.toNat) (hsize : r.size = f.size.toNat)
    (hinside : f.rawFilePosition.toNat + f.size.toNat ≤ contents.length) (offset size : Nat) :
    (opened xs contents file).read checks (number xs a) offset size = .ok (slice (f.data contents) offset size) := by
  have hle := hI.written.archive.length_le
  have hpart : slice (f.data contents) offset size
      = (contents.drop (f.rawFilePosition.toNat + offset)).take (min (f.size.toNat - offset) size) := by
    unfold TarEntry.data slice
    rw [List.drop_take, List.drop_drop, List.take_take, Nat.min_comm]
  unfold Tar.read
  rw [hr, ok_bind, if_neg (not_not.mpr hreg), if_neg (by omega), hsize, Int.toNat_natCast]
  by_cases hend : offset ≥ f.size.toNat
  · rw [if_pos hend, hpart, Nat.sub_eq_zero_of_le hend, Nat.zero_min]
    rfl
  · have hlen : ((contents.drop (f.rawFilePosition.toNat + offset)).take (min (f.size.toNat - offset) size)).length
        = min (f.size.toNat - offset) size := by
      rw [List.length_take, List.length_drop]
      omega
    have hat : At file (f.rawFilePosition.toNat + offset)
        ((contents.drop (f.rawFilePosition.toNat + offset)).take (min (f.size.toNat - offset) size)) :=
      At.mono (List.take_prefix _ _) hI.written.archive
    rw [if_neg hend, hoffset, U64.add_of_le (hI.le_max (by omega)), ok_bind, hpart]
    exact bytes_eq hat hlen (by omega)

theorem Indexed.owner_lt (ha : a ∈ xs) {x : FileAttr}
    (h : (opened xs contents file).attr checks (number xs a) = .ok x) : x.uid < 2 ^ 32 ∧ x.gid < 2 ^ 32 := by
  obtain ⟨r, hr, hd⟩ := hI.inode_eq ha checks
  obtain ⟨offset, size, hfields⟩ := hd.fields
  have howner : r.owner < 2 ^ 32 ∧ r.group < 2 ^ 32 := by
    rw [hfields]
    exact ⟨(hI.sound.entry a).owner, (hI.sound.entry a).group⟩
  unfold Tar.attr at h
  rw [hr, ok_bind] at h
  cases hkind : fileType r.mode with
  | none =>
    rw [hkind] at h
    cases h
  | some kind =>
    rw [hkind] at h
    obtain ⟨_, -, h⟩ := bind_eq_ok.mp h
    obtain ⟨_, -, h⟩ := bind_eq_ok.mp h
    cases h
    exact howner

end

/-- An entry of the tree that is made of an entry of the archive. -/
structure MadeOf (s : State) (t : Nat → Option Bytes) (f : TarEntry) (a : Nat) : Prop where
  entry : (s.heap.cells a).childless = f.made.childless
  target : t a = f.linkName

theorem MadeOf.fields (h : MadeOf s t f a) :
    (s.heap.cells a).mode = f.made.mode ∧ (s.heap.cells a).size = f.made.size ∧
      (s.heap.cells a).offset = f.made.offset ∧ (s.heap.cells a).owner = f.made.owner ∧
      (s.heap.cells a).group = f.made.group := by
  have hmode := congrArg Entry.mode h.entry
  have hsize := congrArg Entry.size h.entry
  have hoffset := congrArg Entry.offset h.entry
  have howner := congrArg Entry.owner h.entry
  have hgroup := congrArg Entry.group h.entry
  exact ⟨hmode, hsize, hoffset, howner, hgroup⟩

/-- The record of an entry that is neither a directory nor a symlink. -/
theorem Indexed.other_eq (hI : Indexed s t xs contents file) (ha : a ∈ xs) {bits : Nat}
    (htype : (s.heap.cells a).mode &&& S_IFMT = bits) (hdir : bits ≠ S_IFDIR)
    (hlnk : bits ≠ S_IFLNK) (checks : Bool) :
    ∃ r, (opened xs contents file).inode checks (number xs a) = .ok r ∧ r.mode &&& S_IFMT = bits ∧
      r.offset = (s.heap.cells a).offset ∧ r.size = (s.heap.cells a).size := by
  obtain ⟨r, hr, hd⟩ := hI.inode_eq ha checks
  have hnot : ∀ type, bits ≠ type → (s.heap.cells a).isType type = false :=
    fun type hne => decide_eq_false (htype ▸ hne)
  obtain ⟨hoffset, hsize⟩ := hd.other (hnot _ hdir) (hnot _ hlnk)
  refine ⟨r, hr, ?_, hoffset, hsize⟩
  rw [Describes.mode_eq hd]
  exact htype

theorem Indexed.sameData (hI : Indexed s t xs contents file) (ha : a ∈ xs) (hin : f.DataInside contents)
    (hm : MadeOf s t f a) {bits size offset : Nat} (hmakes : f.Makes bits size offset)
    (htype : (s.heap.cells a).mode &&& S_IFMT = bits) (hsize : f.made.size = size) (hoffset : f.made.offset = offset)
    (checks : Bool) :
    ∃ r, (opened xs contents file).inode checks (number xs a) = .ok r ∧ r.size ≤ file.length ∧
      ∀ x : FileAttr, x.ino = number xs a → x.size = r.size →
        f.SameData checks contents (opened xs contents file) x := by
  obtain ⟨-, hsize', hoffset', -, -⟩ := hm.fields
  rw [hsize] at hsize'
  rw [hoffset] at hoffset'
  have hle := hI.written.archive.length_le
  cases hmakes with
  | regular htype' =>
    obtain ⟨r, hr, hmode, ho, hz⟩ := hI.other_eq ha htype (by decide) (by decide) checks
    rw [hoffset'] at ho
    rw [hsize'] at hz
    have hinside := hin htype'
    refine ⟨r, hr, by omega, fun x hino hx => ?_⟩
    unfold TarEntry.SameData
    rw [htype', hino]
    exact ⟨hx.trans hz, hI.read_eq hr hmode ho hz hinside⟩
  | directory htype' =>
    obtain ⟨r, hr, hd⟩ := hI.inode_eq ha checks
    obtain ⟨pre, post, hrows, -, hz⟩ := hd.directory (isType_iff.mpr htype)
    have hfile := hI.written.length
    have hrow := congrArg List.length hrows
    rw [List.length_append, List.length_append] at hrow
    refine ⟨r, hr, ?_, fun x _ _ => ?_⟩
    · rw [hz]
      unfold State.stringTable sizeOfDirEntry at *
      omega
    · unfold TarEntry.SameData
      rw [htype']
      trivial
  | fifo htype' =>
    obtain ⟨r, hr, -, -, hz⟩ := hI.other_eq ha htype (by decide) (by decide) checks
    rw [hsize'] at hz
    refine ⟨r, hr, by omega, fun x _ hx => ?_⟩
    unfold TarEntry.SameData
    rw [htype']
    exact hx.trans hz
  | char major minor htype' hmajor hminor | block major minor htype' hmajor hminor =>
    obtain ⟨r, hr, -, ho, hz⟩ := hI.other_eq ha htype (by decide) (by decide) checks
    rw [hoffset'] at ho
    rw [hsize'] at hz
    refine ⟨r, hr, by omega, fun x hino hx => ?_⟩
    unfold TarEntry.SameData
    rw [htype', hino]
    exact ⟨hx.trans hz, r, major, minor, hr, hmajor, hminor, ho ▸ device_numbers major minor⟩
  | symlink name offset htype' hlink =>
    obtain ⟨r, name', hr, hname, hat, hz, hend, hmode⟩ := hI.symlink_eq ha (isType_iff.mpr htype) checks
    rw [hm.target, hlink, Option.some.injEq] at hname
    subst hname
    refine ⟨r, hr, by omega, fun x hino hx => ?_⟩
    unfold TarEntry.SameData
    rw [htype', hino]
    refine ⟨name, hlink, hx.trans hz, ?_⟩
    unfold Tar.readlink
    rw [hr, ok_bind, hmode, if_neg (not_not.mpr htype)]
    exact bytes_eq hat hz.symm (by omega)

/-- What is shown for an entry that is made of an entry of the archive. -/
theorem Indexed.attr_of_made (hI : Indexed s t xs contents file) (ha : a ∈ xs) (hf : f.Ordinary)
    (hin : f.DataInside contents) (hm : MadeOf s t f a) (checks : Bool) :
    ∃ x, (opened xs contents file).attr checks (number xs a) = .ok x ∧ ((f.uid.getD 0).toNat < 2 ^ 32 →
      (f.gid.getD 0).toNat < 2 ^ 32 → f.Shown checks contents (opened xs contents file) x) := by
  obtain ⟨m, bits, size, offset, hmode, hmade, hmakes⟩ := hf.makes
  obtain ⟨hbits, hperm, hkind⟩ := hmakes.bits_eq
  obtain ⟨hcmode, -, -, howner, hgroup⟩ := hm.fields
  rw [hmade] at hcmode howner hgroup
  have htype : (s.heap.cells a).mode &&& S_IFMT = bits := by
    rw [hcmode]
    exact type_of_perm _ hbits
  obtain ⟨r, hr, hsize, hdata⟩ := hI.sameData ha hin hm hmakes htype (by rw [hmade]; rfl) (by rw [hmade]; rfl) checks
  have hattr := hI.attr_eq ha (hkind _ htype) hr hsize
  refine ⟨_, hattr, fun huid hgid => ?_⟩
  obtain ⟨r', hr', hd⟩ := hI.inode_eq ha checks
  rw [hr, Except.ok.injEq] at hr'
  subst hr'
  obtain ⟨o, z, hfields⟩ := hd.fields
  have hrmode : r.mode = m.toNat % 2 ^ 16 &&& 0x1ff ||| bits := (Describes.mode_eq hd).trans hcmode
  have hrowner : r.owner = (f.uid.getD 0).toNat % 2 ^ 32 := by
    rw [hfields]
    exact howner
  have hrgroup : r.group = (f.gid.getD 0).toNat % 2 ^ 32 := by
    rw [hfields]
    exact hgroup
  refine ⟨rfl, ?_, ?_, ?_, hdata _ rfl rfl⟩
  · rw [hmode, Option.map_some]
    dsimp only
    rw [hrmode, perm_eq _ hperm]
  · dsimp only
    rw [hrowner, Nat.mod_eq_of_lt huid]
  · dsimp only
    rw [hrgroup, Nat.mod_eq_of_lt hgid]

end Attr

/-! ## Layers -/

/-- Files, directories, symlinks, fifos and devices without whiteouts, where only directories have
something below. -/
structure Archive.Layer (ar : Archive) : Prop where
  ordinary : ∀ f ∈ ar.entries, f.Ordinary
  inside : ∀ f ∈ ar.entries, f.DataInside ar.contents
  directory : ∀ f ∈ ar.entries, ∀ g ∈ ar.entries, f.cleaned <+: g.cleaned → f.cleaned ≠ g.cleaned →
    f.type = .directory

/-- The last entry for its path. -/
def Archive.Last (ar : Archive) (f : TarEntry) : Prop :=
  ∃ pre post, ar.entries = pre ++ f :: post ∧ ∀ g ∈ post, g.cleaned ≠ f.cleaned

/-- Every path of the archive resolves to what the last entry for it says. -/
def Archive.Found (checks : Bool) (ar : Archive) (file : Bytes) : Prop :=
  ∀ f, ar.Last f → ∃ tar x, Tar.new file file.length = .ok tar ∧ tar.resolve checks 1 f.cleaned = .ok x ∧
    f.Shown checks ar.contents tar x

/-- Every directory has its own entry, what is in a directory comes again after each entry for the
directory, and the owners fit 32 bits. -/
structure Archive.Complete (ar : Archive) : Prop where
  parents : ∀ f ∈ ar.entries, ∀ p, p <+: f.cleaned → p ≠ [] → ∃ g ∈ ar.entries, g.cleaned = p
  again : ∀ pre f post, ar.entries = pre ++ f :: post → ∀ g ∈ pre, f.cleaned <+: g.cleaned → f.cleaned ≠ g.cleaned →
    ∃ g' ∈ post, g'.cleaned = g.cleaned
  owners : ∀ f, ar.Last f → (f.uid.getD 0).toNat < 2 ^ 32 ∧ (f.gid.getD 0).toNat < 2 ^ 32

section Layers

variable {ar : Archive} {f : TarEntry}

theorem Archive.Last.mem (h : ar.Last f) : f ∈ ar.entries := by
  obtain ⟨pre, post, hsplit, -⟩ := h
  rw [hsplit]
  exact List.mem_append_right pre List.mem_cons_self

theorem exists_last_of_path {p : List Bytes} (h : ∃ f ∈ ar.entries, f.cleaned = p) :
    ∃ f, ar.Last f ∧ f.cleaned = p := by
  obtain ⟨pre, f, post, hsplit, hf, hpost⟩ := exists_last h
  refine ⟨f, ⟨pre, post, hsplit, fun g hg => ?_⟩, hf⟩
  rw [hf]
  exact hpost g hg

theorem mem_puts {fs : List TarEntry} {x : List Bytes × (Entry × Option Bytes)} (hx : x ∈ puts fs) :
    ∃ f ∈ fs, x = (f.cleaned, (f.made.childless, f.linkName)) := by
  obtain ⟨f, hf, rfl⟩ := List.mem_map.mp hx
  exact ⟨f, hf, rfl⟩

/-- Nothing above the last entry for a path comes after it. -/
theorem Archive.Complete.not_prefix_later (hc : ar.Complete) {pre post : List TarEntry}
    (hsplit : ar.entries = pre ++ f :: post) (hlast : ∀ g ∈ post, g.cleaned ≠ f.cleaned) :
    ∀ g ∈ post, ¬ g.cleaned <+: f.cleaned := by
  intro g hg hpre
  obtain ⟨mid, rest, rfl⟩ := List.append_of_mem hg
  have hsplit' : ar.entries = (pre ++ f :: mid) ++ g :: rest := by
    rw [hsplit, List.append_assoc, List.cons_append]
  obtain ⟨g', hg', heq⟩ := hc.again _ g rest hsplit' f
    (List.mem_append_right pre List.mem_cons_self) hpre (hlast g hg)
  exact hlast g' (List.mem_append_right mid (List.mem_cons_of_mem g hg')) heq

theorem Archive.Complete.seen_last (hc : ar.Complete) (hl : ar.Layer) (hf : ar.Last f) :
    ar.state.seen ar.target f.cleaned = some (f.made.childless, f.linkName) := by
  obtain ⟨pre, post, hsplit, hlast⟩ := hf
  have hlater := hc.not_prefix_later hsplit hlast
  rw [seen_state hl.ordinary, hsplit]
  unfold puts
  rw [List.map_append, List.map_cons]
  refine PathMap.puts_of_last _ _ fun x hx => ?_
  obtain ⟨g, hg, rfl⟩ := mem_puts hx
  exact hlater g hg

theorem made_directory (hf : f.Ordinary) (htype : f.type = .directory) : f.made.mode &&& S_IFMT = S_IFDIR := by
  obtain ⟨m, bits, size, offset, -, hmade, hmakes⟩ := hf.makes
  rw [hmade]
  show (_ ||| bits) &&& S_IFMT = S_IFDIR
  rw [type_of_perm _ hmakes.bits_eq.1]
  cases hmakes with
  | directory => rfl
  | regular h | fifo h | char _ _ h | block _ _ h | symlink _ _ h => rw [htype] at h; cases h

theorem Archive.Complete.seen_above (hc : ar.Complete) (hl : ar.Layer) (hf : f ∈ ar.entries) {r : List Bytes}
    (hr : r <+: f.cleaned) (hne : r ≠ f.cleaned) :
    ∃ v, ar.state.seen ar.target r = some v ∧ v.1.mode &&& S_IFMT = S_IFDIR := by
  by_cases hentry : ∃ g ∈ ar.entries, g.cleaned = r
  · obtain ⟨g, hg, rfl⟩ := exists_last_of_path hentry
    refine ⟨_, hc.seen_last hl hg, ?_⟩
    exact made_directory (hl.ordinary g hg.mem) (hl.directory g hg.mem f hf hr hne)
  · -- Only the root needs no entry.
    have hroot : r = [] := by
      by_contra hr'
      exact hentry (hc.parents f hf r hr hr')
    subst hroot
    refine ⟨({ mode := S_IFDIR ||| 0o555 }, none), ?_, by decide⟩
    rw [seen_state hl.ordinary]
    refine PathMap.puts_of_some _ (fun x hx hpre => ?_) (initial_seen [])
    obtain ⟨g, hg, rfl⟩ := mem_puts hx
    exact hentry ⟨g, hg, List.prefix_nil.mp hpre⟩

/-! ## The index of a layer -/

variable {fuel : Nat} {file : Bytes}

theorem archive_indexed (har : ar.Genuine) (hok : appendIndex fuel ar = .ok file)
    (hstrings : ar.state.survivors ar.target (ar.visits fuel) ++ nameBytes (ar.state.heap.rows (ar.visits fuel)) <+:
      ar.state.specialLink.flatten ++ nameBytes (ar.state.heap.rows (ar.visits fuel))) :
    Indexed ar.state ar.target (ar.visits fuel) ar.contents file ∧ ar.state.root ∈ ar.visits fuel ∧
      number (ar.visits fuel) ar.state.root = 1 ∧
      Tar.new file file.length = .ok (opened (ar.visits fuel) ar.contents file) := by
  obtain ⟨-, hord, hfile, hlen⟩ := appendIndex_eq_ok_iff.mp hok
  have hs := archive_sound har
  have hw := file_written hs (ar.visits fuel)
  rw [← hfile] at hw
  have hnew := new_file hs (ar.visits fuel) (hfile ▸ hlen)
  rw [← hfile] at hnew
  refine ⟨⟨hs, hw, hlen, fun a ha b hb => order_children hord ha hb, (strings_iff hw hs).mpr hstrings⟩,
    order_mem hord (List.mem_singleton_self _), ?_, hnew⟩
  obtain ⟨ys, hys⟩ := order_head hord
  unfold number firstVisits
  rw [hys, List.eraseDups_cons, List.idxOf_cons_self]

theorem Indexed.walk_mem {s : State} {t : Nat → Option Bytes} {xs : List Nat} {contents file : Bytes}
    (hI : Indexed s t xs contents file) {a c : Nat} (path : List Bytes) (ha : a ∈ xs)
    (hwalk : walk s.heap a path = some c) : c ∈ xs := by
  induction path generalizing a with
  | nil =>
    cases hwalk
    exact ha
  | cons name path ih =>
    obtain ⟨b, hl, hwalk⟩ := Option.bind_eq_some_iff.mp hwalk
    exact ih (hI.child_mem ha hl) hwalk

theorem seen_eq_some {s : State} {t : Nat → Option Bytes} {q : List Bytes} {v : Entry × Option Bytes}
    (h : s.seen t q = some v) :
    ∃ a, walk s.heap s.root q = some a ∧ (s.heap.cells a).childless = v.1 ∧ t a = v.2 := by
  obtain ⟨a, ha, rfl⟩ := Option.map_eq_some_iff.mp h
  exact ⟨a, ha, rfl, rfl⟩

variable {checks : Bool}

/-- A path that resolves has been put, with everything above it, and not taken away since. -/
theorem put_of_resolve (hl : ar.Layer)
    (hI : Indexed ar.state ar.target (ar.visits fuel) ar.contents file) (hroot : ar.state.root ∈ ar.visits fuel)
    {path : List Bytes} {x : FileAttr}
    (hres : (opened (ar.visits fuel) ar.contents file).resolve checks
      (number (ar.visits fuel) ar.state.root) path = .ok x)
    {r : List Bytes} (hr : r <+: path) (hne : r ≠ []) :
    ∃ pre g post, ar.entries = pre ++ g :: post ∧ g.cleaned = r ∧ ∀ h ∈ post, ¬ h.cleaned <+: r := by
  obtain ⟨⟨c, hc, hwalk, hx⟩, hdirs⟩ := hI.walk_of_resolve path hroot hres
  have htyped : ∃ v, ar.state.seen ar.target r = some v ∧ v ≠ (default, none) := by
    by_cases hend : r = path
    · subst hend
      have hkind := hI.kind_of_attr hc hx
      refine ⟨((ar.state.heap.cells c).childless, ar.target c), ?_, fun heq => ?_⟩
      · unfold State.seen Heap.labelAt
        rw [hwalk]
        rfl
      · have hmode : (ar.state.heap.cells c).mode = 0 := congrArg Entry.mode (Prod.ext_iff.mp heq).1
        rw [hmode] at hkind
        cases hkind
    · obtain ⟨b, hb, hdir⟩ := hdirs r hr hend
      refine ⟨((ar.state.heap.cells b).childless, ar.target b), ?_, fun heq => ?_⟩
      · unfold State.seen Heap.labelAt
        rw [hb]
        rfl
      · have hmode : (ar.state.heap.cells b).mode = 0 := congrArg Entry.mode (Prod.ext_iff.mp heq).1
        rw [isType_iff, hmode] at hdir
        exact absurd hdir (by decide)
  obtain ⟨v, hv, hdefault⟩ := htyped
  rw [seen_state hl.ordinary] at hv
  rcases PathMap.last_of_puts _ hv hdefault with ⟨hinit, -⟩ | ⟨pre, post, hsplit, hpost⟩
  · rw [initial_seen, if_neg hne] at hinit
    cases hinit
  · obtain ⟨pre', rest, hentries, -, hrest⟩ := List.map_eq_append_iff.mp hsplit
    obtain ⟨g, post', rfl, hg, hpost'⟩ := List.map_eq_cons_iff.mp hrest
    refine ⟨pre', g, post', hentries, (Prod.ext_iff.mp hg).1, fun h hh => ?_⟩
    refine hpost (h.cleaned, (h.made.childless, h.linkName)) ?_
    rw [← hpost']
    exact List.mem_map_of_mem hh

section Genuine

variable (har : ar.Genuine) (hl : ar.Layer) (hok : appendIndex fuel ar = .ok file)
  (hstrings : ar.state.survivors ar.target (ar.visits fuel) ++ nameBytes (ar.state.heap.rows (ar.visits fuel)) <+:
    ar.state.specialLink.flatten ++ nameBytes (ar.state.heap.rows (ar.visits fuel)))

include har hl hok hstrings

theorem complete_of_found (hfound : ar.Found checks file) : ar.Complete := by
  obtain ⟨hI, hroot, hone, hnew⟩ := archive_indexed har hok hstrings
  have hres : ∀ f, ar.Last f → ∃ x, (opened (ar.visits fuel) ar.contents file).resolve checks
      (number (ar.visits fuel) ar.state.root) f.cleaned = .ok x ∧
        f.Shown checks ar.contents (opened (ar.visits fuel) ar.contents file) x := by
    intro f hf
    obtain ⟨tar, x, htar, hx, hshown⟩ := hfound f hf
    rw [hnew, Except.ok.injEq] at htar
    subst htar
    rw [hone]
    exact ⟨x, hx, hshown⟩
  refine ⟨fun f hf p hp hne => ?_, fun pre f post hsplit g hg hpre hne => ?_, fun f hf => ?_⟩
  · obtain ⟨f', hlast, heq⟩ := exists_last_of_path ⟨f, hf, rfl⟩
    obtain ⟨x, hx, -⟩ := hres f' hlast
    rw [heq] at hx
    obtain ⟨pre, g, post, hsplit, hg, -⟩ := put_of_resolve hl hI hroot hx hp hne
    refine ⟨g, ?_, hg⟩
    rw [hsplit]
    exact List.mem_append_right pre List.mem_cons_self
  · have hgm : g ∈ ar.entries := hsplit ▸ List.mem_append_left _ hg
    have hgne : g.cleaned ≠ [] := by
      intro hnil
      rw [hnil] at hpre hne
      exact hne (List.prefix_nil.mp hpre)
    obtain ⟨g₀, hlast, heq⟩ := exists_last_of_path ⟨g, hgm, rfl⟩
    obtain ⟨x, hx, -⟩ := hres g₀ hlast
    rw [heq] at hx
    obtain ⟨pre', k, post', hsplit', hk, hlater⟩ := put_of_resolve hl hI hroot hx List.prefix_rfl hgne
    -- The put that is left comes after `f`, which is above it.
    rw [hsplit] at hsplit'
    rcases append_cons_elem hsplit' with ⟨c, -, hpost'⟩ | ⟨-, hfk, -⟩ | ⟨c, -, hpost⟩
    · refine absurd hpre (hlater f ?_)
      rw [hpost']
      exact List.mem_append_right c List.mem_cons_self
    · rw [← hfk] at hk
      exact absurd hk hne
    · refine ⟨k, ?_, hk⟩
      rw [hpost]
      exact List.mem_append_right c List.mem_cons_self
  · obtain ⟨x, hx, hshown⟩ := hres f hf
    obtain ⟨⟨c, hc, -, hattr⟩, -⟩ := hI.walk_of_resolve f.cleaned hroot hx
    obtain ⟨huid, hgid⟩ := hI.owner_lt hc hattr
    rw [← hshown.uid, ← hshown.gid]
    exact ⟨huid, hgid⟩

theorem found_of_complete (hc : ar.Complete) : ar.Found checks file := by
  obtain ⟨hI, hroot, hone, hnew⟩ := archive_indexed har hok hstrings
  intro f hf
  obtain ⟨a, hwalk, hentry, htarget⟩ := seen_eq_some (hc.seen_last hl hf)
  have ha := hI.walk_mem f.cleaned hroot hwalk
  have hdirs : ∀ r, r <+: f.cleaned → r ≠ f.cleaned → ∀ b, walk ar.state.heap ar.state.root r = some b →
      (ar.state.heap.cells b).isType S_IFDIR = true := by
    intro r hr hne b hb
    obtain ⟨v, hv, hdir⟩ := hc.seen_above hl hf.mem hr hne
    obtain ⟨b', hb', hchildless, -⟩ := seen_eq_some hv
    rw [hb, Option.some.injEq] at hb'
    subst hb'
    rw [← hchildless] at hdir
    exact isType_iff.mpr hdir
  have hshow := hI.attr_of_made ha (hl.ordinary f hf.mem) (hl.inside f hf.mem) ⟨hentry, htarget⟩ checks
  obtain ⟨x, hx, hshown⟩ := hshow
  obtain ⟨huid, hgid⟩ := hc.owners f hf
  have hres := hI.resolve_of_walk checks f.cleaned hroot hwalk hdirs fun r hr b hb hwalkr => ?_
  · refine ⟨_, x, hnew, ?_, hshown huid hgid⟩
    rw [← hone, hres.2]
    exact hx
  · by_cases hend : r = f.cleaned
    · rw [hend, hwalk, Option.some.injEq] at hwalkr
      subst hwalkr
      exact ⟨x, hx⟩
    · exact hI.attr_of_dir hb (hdirs r hr hend b hwalkr)

end Genuine

/-- In the index of a genuine layer, whose strings are where they are expected, every path of the
archive resolves to what the last entry for it says exactly if the archive is complete. -/
theorem found_iff {fuel : Nat} {file : Bytes} (har : ar.Genuine) (hl : ar.Layer)
    (hok : appendIndex fuel ar = .ok file)
    (hstrings : ar.state.survivors ar.target (ar.visits fuel) ++ nameBytes (ar.state.heap.rows (ar.visits fuel)) <+:
      ar.state.specialLink.flatten ++ nameBytes (ar.state.heap.rows (ar.visits fuel))) (checks : Bool) :
    ar.Found checks file ↔ ar.Complete :=
  ⟨complete_of_found har hl hok hstrings, found_of_complete har hl hok hstrings⟩

end Layers

/-! ## Three layers -/

/-- The file `d/a`. -/
def innerFile : TarEntry := { laterFile with path := [100, 47, 97] }

/-- The directory `d`. -/
def outerDirectory : TarEntry := { laterFile with path := [100, 47], type := .directory }

theorem layer_of_subset (fs : List TarEntry) (hfs : ∀ f ∈ fs, f = innerFile ∨ f = outerDirectory) :
    (linkArchive fs).Genuine ∧ (linkArchive fs).Layer := by
  have hgenuine : ∀ f ∈ fs, f.Genuine linkBlocks := by
    intro f hf
    rcases hfs f hf with rfl | rfl
    · exact ⟨laterFile_genuine.header, nofun⟩
    · exact ⟨laterFile_genuine.header, nofun⟩
  have hinside : ∀ f ∈ fs, f.DataInside linkBlocks := by
    intro f hf htype
    rw [length_linkBlocks]
    rcases hfs f hf with rfl | rfl
    · decide
    · decide
  refine ⟨hgenuine, fun f hf => ?_, hinside, fun f hf g hg hpre hne => ?_⟩
  · rcases hfs f hf with rfl | rfl
    · exact ⟨trivial, by decide, by decide⟩
    · exact ⟨trivial, by decide, by decide⟩
  · rcases hfs f hf with rfl | rfl
    · rcases hfs g hg with rfl | rfl
      · exact absurd rfl hne
      · exact absurd hpre (by decide)
    · rfl

theorem layer_directoryFirst :
    (linkArchive [outerDirectory, innerFile]).Genuine ∧ (linkArchive [outerDirectory, innerFile]).Layer := by
  refine layer_of_subset _ fun f hf => ?_
  rcases List.mem_pair.mp hf with rfl | rfl
  · exact .inr rfl
  · exact .inl rfl

theorem split_pair {α : Type} {x y z : α} {pre post : List α} (h : [x, y] = pre ++ z :: post) :
    (pre = [] ∧ z = x ∧ post = [y]) ∨ (pre = [x] ∧ z = y ∧ post = []) := by
  cases pre with
  | nil =>
    cases h
    exact .inl ⟨rfl, rfl, rfl⟩
  | cons w pre =>
    cases pre with
    | nil =>
      cases h
      exact .inr ⟨rfl, rfl, rfl⟩
    | cons v pre =>
      have hlen := congrArg List.length h
      simp at hlen

theorem complete_directoryFirst : (linkArchive [outerDirectory, innerFile]).Complete := by
  have hparents : ∀ f ∈ [outerDirectory, innerFile], ∀ p ∈ f.cleaned.inits, p ≠ [] →
      ∃ g ∈ [outerDirectory, innerFile], g.cleaned = p := by
    decide
  refine ⟨fun f hf p hp => hparents f hf p ((List.mem_inits p f.cleaned).mpr hp),
    fun pre f post hsplit g hg hpre hne => ?_, fun f hf => ?_⟩
  · rcases split_pair hsplit with ⟨rfl, -, -⟩ | ⟨rfl, rfl, rfl⟩
    · exact nomatch hg
    · rw [List.mem_singleton.mp hg] at hpre
      exact absurd hpre (by decide)
  · rcases List.mem_pair.mp hf.mem with rfl | rfl
    · decide
    · decide

/-- The directory, then the file: both are found. -/
theorem found_iff_directoryFirst :
    ∃ file, appendIndex 3 (linkArchive [outerDirectory, innerFile]) = .ok file ∧
      (linkArchive [outerDirectory, innerFile]).Found true file := by
  obtain ⟨hg, hl⟩ := layer_directoryFirst
  obtain ⟨file, hok⟩ := linkArchive_indexed hg 3 400 (by decide) (by decide) (by decide)
  exact ⟨file, hok, (found_iff hg hl hok (by decide) true).mpr complete_directoryFirst⟩

/-- The file without the directory, and the file before the directory: neither is found. -/
theorem innerFile_lost :
    ((linkArchive [innerFile]).Layer ∧
      ∃ file, appendIndex 3 (linkArchive [innerFile]) = .ok file ∧ ¬ (linkArchive [innerFile]).Found true file) ∧
    ((linkArchive [innerFile, outerDirectory]).Layer ∧
      ∃ file, appendIndex 3 (linkArchive [innerFile, outerDirectory]) = .ok file ∧
        ¬ (linkArchive [innerFile, outerDirectory]).Found true file) := by
  obtain ⟨hg, hl⟩ := layer_of_subset [innerFile] fun _ hf => .inl (List.mem_singleton.mp hf)
  obtain ⟨hg', hl'⟩ := layer_of_subset [innerFile, outerDirectory] fun _ hf => List.mem_pair.mp hf
  obtain ⟨file, hok⟩ := linkArchive_indexed hg 3 400 (by decide) (by decide) (by decide)
  obtain ⟨file', hok'⟩ := linkArchive_indexed hg' 3 400 (by decide) (by decide) (by decide)
  refine ⟨⟨hl, file, hok, fun hfound => ?_⟩, hl', file', hok', fun hfound => ?_⟩
  · have hc := complete_of_found hg hl hok (by decide) hfound
    obtain ⟨g, hmem, hpath⟩ := hc.parents innerFile List.mem_cons_self [[100]] (by decide) (by decide)
    rw [List.mem_singleton.mp hmem] at hpath
    exact absurd hpath (by decide)
  · have hc := complete_of_found hg' hl' hok' (by decide) hfound
    obtain ⟨g, hmem, -⟩ := hc.again [innerFile] outerDirectory [] rfl innerFile List.mem_cons_self
      (by decide) (by decide)
    exact nomatch hmem

end Kata.TarIndex
