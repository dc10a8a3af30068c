import Kata.TarIndex.Passes

/-!
# Kata.TarIndex.Layout

Where the index points. The offsets of the names are computed as if the string table began with the
targets of the special symlinks that are left in the tree, in the order of their first visits. What
is written there are the targets of all special symlinks of the archive, in the order of the
archive. `State.pointsRight_iff_strings` says that the index is right exactly if the bytes that are
expected are the bytes that are there, and `index_pointsRight_iff` says so for `append_index`.
-/

namespace Kata.TarIndex

open Lib Relation

/-! ## The file that is written -/

def State.direntTable (s : State) (xs : List Nat) (contents : Bytes) : Nat :=
  contents.length + sizeOfInode * (firstVisits xs).length

def State.stringTable (s : State) (xs : List Nat) (contents : Bytes) : Nat :=
  s.direntTable xs contents + sizeOfDirEntry * (s.heap.rows xs).length

/-- The target of an entry, if the index expects it in the string table. -/
def State.specialTarget (s : State) (t : Nat → Option Bytes) (a : Nat) : Bytes :=
  if (s.heap.cells a).isSpecial then (t a).getD [] else []

/-- The targets of the special symlinks that are left, in the order of their first visits. -/
def State.survivors (s : State) (t : Nat → Option Bytes) (xs : List Nat) : Bytes :=
  (firstVisits xs).flatMap (s.specialTarget t)

section Cells

variable {contents : Bytes} {s : State} {t : Nat → Option Bytes} {xs : List Nat} {a : Nat}

section

variable (hs : s.Sound contents t)
include hs

theorem numbered_cells (a : Nat) :
    (s.numbered xs).1.cells a
      = { s.heap.cells a with ino := if a ∈ xs then (firstVisits xs).idxOf a + 1 else 0 } :=
  (numbered_spec (fun a => (hs.entry a).ino) xs).cells a

theorem numbered_count : (s.numbered xs).2 = (firstVisits xs).length :=
  (numbered_spec (fun a => (hs.entry a).ino) xs).count

theorem numbered_rows : (s.numbered xs).1.rows xs = s.heap.rows xs :=
  rows_congr (fun a => by rw [numbered_cells hs]) fun a => by rw [numbered_cells hs]

theorem placed_eq (xs : List Nat) :
    Placed (s.numbered xs).1 (s.direntTable xs contents) xs (s.placed xs contents) := by
  have hspec := placed_spec s xs contents
  rw [numbered_count hs] at hspec
  exact hspec

theorem placed_offset : (s.placed xs contents).2 = s.stringTable xs contents := by
  rw [(placed_eq hs xs).offset, numbered_rows hs]
  rfl

/-- A directory has one of its stretches of the table, any other entry has what was read. -/
theorem placed_cells_of_dir (ha : a ∈ xs) (hdir : (s.heap.cells a).isType S_IFDIR = true) :
    ∃ ino pre post, s.heap.rows xs = pre ++ (s.heap.cells a).children ++ post ∧
      (s.placed xs contents).1.cells a = { s.heap.cells a with
        ino := ino
        offset := s.direntTable xs contents + sizeOfDirEntry * pre.length
        size := sizeOfDirEntry * (s.heap.cells a).children.length } := by
  have hdir' : ((s.numbered xs).1.cells a).isType S_IFDIR = true := by
    rw [numbered_cells hs]
    exact hdir
  obtain ⟨pre, post, hrows, hcells⟩ := (placed_eq hs xs).directory a ha hdir'
  rw [numbered_rows hs, numbered_cells hs] at hrows
  rw [numbered_cells hs] at hcells
  exact ⟨_, pre, post, hrows, hcells⟩

theorem placed_cells_of_not_dir (xs : List Nat) (hdir : (s.heap.cells a).isType S_IFDIR = false) :
    ∃ ino, (s.placed xs contents).1.cells a = { s.heap.cells a with ino := ino } := by
  have hdir' : ((s.numbered xs).1.cells a).isType S_IFDIR = false := by
    rw [numbered_cells hs]
    exact hdir
  have hcells := (placed_eq hs xs).other a hdir'
  rw [numbered_cells hs] at hcells
  exact ⟨_, hcells⟩

theorem placed_same (xs : List Nat) (a : Nat) :
    ∃ offset size, (s.placed xs contents).1.cells a = { s.heap.cells a with
      ino := if a ∈ xs then (firstVisits xs).idxOf a + 1 else 0
      offset := offset
      size := size } := by
  obtain ⟨offset, size, hcells⟩ := (placed_eq hs xs).same a
  rw [numbered_cells hs] at hcells
  exact ⟨offset, size, hcells⟩

end

theorem not_special_of_dir {e : Entry} (hdir : e.isType S_IFDIR = true) : e.isSpecial = false := by
  have htype := of_decide_eq_true hdir
  have hnot : e.isType S_IFLNK = false := by
    refine decide_eq_false fun hlnk => ?_
    rw [htype] at hlnk
    exact absurd hlnk (by decide)
  unfold Entry.isSpecial
  rw [hnot]
  rfl

section

variable (hs : s.Sound contents t)
include hs

theorem placed_weight (a : Nat) : ((s.placed xs contents).1.cells a).weight = (s.heap.cells a).weight := by
  cases hdir : (s.heap.cells a).isType S_IFDIR with
  | false =>
    obtain ⟨ino, hcells⟩ := placed_cells_of_not_dir hs xs hdir
    rw [hcells]
    rfl
  | true =>
    obtain ⟨offset, size, hcells⟩ := placed_same hs xs a
    have hdir' : ((s.placed xs contents).1.cells a).isType S_IFDIR = true := by
      rw [hcells]
      exact hdir
    unfold Entry.weight
    rw [not_special_of_dir hdir, not_special_of_dir hdir']
    rfl

theorem weight_eq (a : Nat) : (s.heap.cells a).weight = (s.specialTarget t a).length := by
  unfold Entry.weight State.specialTarget
  cases hsp : (s.heap.cells a).isSpecial with
  | false => rfl
  | true =>
    obtain ⟨name, hname, hsize, -⟩ := (hs.entry a).symlink (Bool.and_eq_true_iff.mp hsp).1
    rw [if_pos rfl, if_pos rfl, hname, hsize]
    rfl

theorem placed_weights (as : List Nat) :
    (s.placed xs contents).1.weights as = (as.flatMap (s.specialTarget t)).length := by
  unfold Heap.weights
  induction as with
  | nil => rfl
  | cons a as ih =>
    rw [List.map_cons, List.sum_cons, ih, placed_weight hs, weight_eq hs, List.flatMap_cons, List.length_append]

theorem length_survivors_le (xs : List Nat) : (s.survivors t xs).length ≤ s.specialLink.flatten.length := by
  have hsum : (s.survivors t xs).length = ∑ a ∈ (firstVisits xs).toFinset, (s.heap.cells a).weight := by
    rw [List.sum_toFinset _ (nodup_firstVisits xs)]
    unfold State.survivors
    rw [List.length_flatMap]
    congr 1
    exact List.map_congr_left fun a _ => (weight_eq hs a).symm
  rw [hsum]
  exact hs.weight _

theorem inodes_eq : Emitted (s.placed xs contents).1 (s.stringTable xs contents) xs (s.inodes xs contents) := by
  rw [← placed_offset hs]
  refine inodes_spec fun a => ?_
  obtain ⟨offset, size, hcells⟩ := placed_same hs xs a
  rw [hcells]
  exact (hs.entry a).emitted

theorem inodes_cells (a : Nat) :
    ((s.inodes xs contents).1.cells a).mode = (s.heap.cells a).mode ∧
      ((s.inodes xs contents).1.cells a).children = (s.heap.cells a).children ∧
      (a ∈ xs → ((s.inodes xs contents).1.cells a).ino = (firstVisits xs).idxOf a + 1) := by
  obtain ⟨offset, size, hcells⟩ := placed_same hs xs a
  rw [(inodes_eq hs).cells, hcells]
  exact ⟨rfl, rfl, fun ha => if_pos ha⟩

theorem inodes_offset : (s.inodes xs contents).2.1 = s.stringTable xs contents + (s.survivors t xs).length := by
  rw [(inodes_eq hs).offset, placed_weights hs]
  rfl

theorem inodes_rows : (s.inodes xs contents).1.rows xs = s.heap.rows xs :=
  rows_congr (fun a => (inodes_cells hs a).1) fun a => (inodes_cells hs a).2.1

theorem tables_eq :
    s.tables xs contents = contents ++
      ((s.placed xs contents).1.records (s.stringTable xs contents) (firstVisits xs)).flatMap Inode.asBytes ++
      ((s.inodes xs contents).1.dirents (s.stringTable xs contents + (s.survivors t xs).length)
        (s.heap.rows xs)).flatMap DirEntry.asBytes ++
      s.specialLink.flatten ++ nameBytes (s.heap.rows xs) := by
  have hnames : (s.names xs contents).2.2 = nameBytes (s.heap.rows xs) := by
    rw [names_spec, bodies_spec]
    dsimp only
    rw [inodes_rows hs]
  unfold State.tables
  rw [hnames, (inodes_eq hs).bytes, bodies_spec]
  dsimp only
  rw [inodes_rows hs, inodes_offset hs]

theorem length_tables (xs : List Nat) :
    (s.tables xs contents).length
      = s.stringTable xs contents + s.specialLink.flatten.length + (nameBytes (s.heap.rows xs)).length := by
  rw [tables_eq hs]
  simp only [List.length_append]
  rw [length_flatMap_of_forall Inode.length_asBytes, length_records, length_flatMap_of_forall DirEntry.length_asBytes,
    length_dirents]
  rfl

theorem names_end (xs : List Nat) :
    (s.names xs contents).2.1 = s.stringTable xs contents + (s.survivors t xs).length +
      (nameBytes (s.heap.rows xs)).length + s.specialLink.flatten.length + (nameBytes (s.heap.rows xs)).length := by
  rw [names_spec, bodies_spec]
  dsimp only
  rw [inodes_rows hs, inodes_offset hs]

end

end Cells

theorem le_align (v : Nat) : v ≤ align v := by
  unfold align alignment
  omega

/-- The padding and the super block are behind the tables. -/
structure State.Written (s : State) (t : Nat → Option Bytes) (xs : List Nat) (contents file : Bytes) : Prop where
  inodes : At file contents.length
    (((s.placed xs contents).1.records (s.stringTable xs contents) (firstVisits xs)).flatMap Inode.asBytes)
  dirents : At file (s.direntTable xs contents)
    (((s.inodes xs contents).1.dirents (s.stringTable xs contents + (s.survivors t xs).length)
      (s.heap.rows xs)).flatMap DirEntry.asBytes)
  strings : At file (s.stringTable xs contents) (s.specialLink.flatten ++ nameBytes (s.heap.rows xs))
  archive : contents <+: file
  length : s.stringTable xs contents + s.specialLink.flatten.length + (nameBytes
    (s.heap.rows xs)).length ≤ file.length

section File

variable {contents : Bytes} {s : State} {t : Nat → Option Bytes} {xs : List Nat}

section

variable (hs : s.Sound contents t)
include hs

theorem first_fits (xs : List Nat) :
    (s.tables xs contents).length ≤ align (s.names xs contents).2.1 + alignment - 512 := by
  have hend := le_align (s.names xs contents).2.1
  have hlen := length_tables hs xs
  have hnames := names_end hs xs
  unfold alignment
  omega

/-- The super block ends before the last byte of the file. -/
theorem second_fits (xs : List Nat) (sb : SuperBlock) :
    (writeAt (s.tables xs contents) (align (s.names xs contents).2.1 + alignment - 512) sb.asBytes).length ≤
      align (s.names xs contents).2.1 + (alignment - 1) := by
  have hend := le_align (s.names xs contents).2.1
  have hlen := length_tables hs xs
  have hnames := names_end hs xs
  rw [length_writeAt (first_fits hs xs)]
  unfold alignment SuperBlock.asBytes
  simp only [List.length_append, length_leBytes]
  omega

theorem length_file (xs : List Nat) : (s.file xs contents).length = align (s.names xs contents).2.1 + alignment := by
  unfold State.file
  rw [length_writeAt (second_fits hs xs _), List.length_singleton]
  unfold alignment
  omega

theorem tables_prefix_file (xs : List Nat) : s.tables xs contents <+: s.file xs contents :=
  (prefix_writeAt (first_fits hs xs)).trans (prefix_writeAt (second_fits hs xs _))

theorem file_written (xs : List Nat) : s.Written t xs contents (s.file xs contents) := by
  have hfile := tables_prefix_file hs xs
  have hlen := hfile.length_le
  rw [length_tables hs xs] at hlen
  have hat : At (s.file xs contents) 0 (s.tables xs contents) := hfile
  rw [tables_eq hs, List.append_assoc _ s.specialLink.flatten, at_append, at_append, at_append] at hat
  simp only [List.length_append, Nat.zero_add, length_flatMap_of_forall Inode.length_asBytes, length_records,
    length_flatMap_of_forall DirEntry.length_asBytes, length_dirents] at hat
  obtain ⟨⟨⟨hcontents, hinodes⟩, hdirents⟩, hstrings⟩ := hat
  exact ⟨hinodes, hdirents, hstrings, hcontents, hlen⟩

end

end File

/-! ## Right pointers -/

/-- The `n` bytes at `o`. -/
def slice (file : Bytes) (o n : Nat) : Bytes := (file.drop o).take n

/-- The record of the inode with the number `i + 1`. -/
def inodeAt (contents file : Bytes) (i : Nat) : Option Inode :=
  Inode.readFromPrefix (file.drop (contents.length + sizeOfInode * i))

/-- The `k`-th record of the table of directory entries. -/
def State.direntAt (s : State) (xs : List Nat) (contents file : Bytes) (k : Nat) : Option DirEntry :=
  DirEntry.readFromPrefix (file.drop (s.direntTable xs contents + sizeOfDirEntry * k))

/-- The record is the inode of the entry at `a`: a directory has a stretch of the table of directory
entries that holds its children and nothing else, and a symlink has its target. -/
structure State.Describes (s : State) (t : Nat → Option Bytes) (xs : List Nat) (contents file : Bytes) (a : Nat)
    (r : Inode) : Prop where
  fields : ∃ offset size, r = { (s.heap.cells a).inode offset with size := size }
  directory : (s.heap.cells a).isType S_IFDIR = true → ∃ pre post,
    s.heap.rows xs = pre ++ (s.heap.cells a).children ++ post ∧
      r.offset = s.direntTable xs contents + sizeOfDirEntry * pre.length ∧
      r.size = sizeOfDirEntry * (s.heap.cells a).children.length
  symlink : (s.heap.cells a).isType S_IFLNK = true → t a = some (slice file r.offset r.size)
  other : (s.heap.cells a).isType S_IFDIR = false → (s.heap.cells a).isType S_IFLNK = false →
    r.offset = (s.heap.cells a).offset ∧ r.size = (s.heap.cells a).size

/-- Every entry of the tree has an inode, the root the first one, and every name of a directory has
a record with this name and the number of the inode of the child. -/
structure State.PointsRight (s : State) (t : Nat → Option Bytes) (xs : List Nat) (contents file : Bytes) : Prop where
  root : (firstVisits xs)[0]? = some s.root
  reached : ∀ a, ReflTransGen s.heap.Edge s.root a → a ∈ firstVisits xs
  inode : ∀ i a, (firstVisits xs)[i]? = some a →
    ∃ r, inodeAt contents file i = some r ∧ s.Describes t xs contents file a r
  dirent : ∀ k name c, (s.heap.rows xs)[k]? = some (name, c) →
    ∃ d i, s.direntAt xs contents file k = some d ∧ d.ino = i + 1 ∧ (firstVisits xs)[i]? = some c ∧
      slice file d.nameOffset d.nameLen = name

section Right

variable {contents file : Bytes} {s : State} {t : Nat → Option Bytes} {xs : List Nat}

/-- The strings stand where the index expects them. -/
theorem strings_iff (hw : s.Written t xs contents file) (hs : s.Sound contents t) :
    At file (s.stringTable xs contents) (s.survivors t xs ++ nameBytes (s.heap.rows xs)) ↔
      s.survivors t xs ++ nameBytes (s.heap.rows xs) <+: s.specialLink.flatten ++ nameBytes (s.heap.rows xs) := by
  constructor
  · intro h
    refine List.prefix_of_prefix_length_le h hw.strings ?_
    rw [List.length_append, List.length_append]
    exact Nat.add_le_add_right (length_survivors_le hs xs) _
  · intro h
    exact h.trans hw.strings

/-! ### Inodes -/

variable {e : Entry}

theorem inode_fits {target : Option Bytes} (he : e.Sound contents target) {offset size : Nat}
    (hoffset : offset < 2 ^ 64) (hsize : size < 2 ^ 64) : Inode.Fits { e.inode offset with size := size } := by
  refine ⟨he.mode, ?_, ?_, he.owner, he.group, Nat.mod_lt _ (by decide), hsize, hoffset⟩
  · show (if e.isOpaque then 1 else 0) < 2 ^ 8
    split <;> decide
  · exact Nat.lt_of_le_of_lt Nat.and_le_right (by decide)

variable {a : Nat}

theorem record_of_not_dir (hs : s.Sound contents t) (hdir : (s.heap.cells a).isType S_IFDIR = false) (o : Nat) :
    ((s.placed xs contents).1.cells a).record o = (s.heap.cells a).record o := by
  obtain ⟨ino, hcells⟩ := placed_cells_of_not_dir hs xs hdir
  rw [hcells]
  rfl

theorem record_of_dir (hs : s.Sound contents t) (ha : a ∈ xs) (hdir : (s.heap.cells a).isType S_IFDIR = true)
    (o : Nat) : ∃ pre post, s.heap.rows xs = pre ++ (s.heap.cells a).children ++ post ∧
      ((s.placed xs contents).1.cells a).record o =
        { (s.heap.cells a).inode (s.direntTable xs contents + sizeOfDirEntry * pre.length) with
          size := sizeOfDirEntry * (s.heap.cells a).children.length } := by
  obtain ⟨ino, pre, post, hrows, hcells⟩ := placed_cells_of_dir hs ha hdir
  have hdir' : ((s.placed xs contents).1.cells a).isType S_IFDIR = true := by
    rw [hcells]
    exact hdir
  refine ⟨pre, post, hrows, ?_⟩
  unfold Entry.record
  rw [not_special_of_dir hdir', hcells]
  rfl

theorem stretch_lt (hw : s.Written t xs contents file) (hlen : file.length ≤ maxFileSize)
    {pre mid post : List (Bytes × Nat)} (hrows : s.heap.rows xs = pre ++ mid ++ post) :
    s.direntTable xs contents + sizeOfDirEntry * pre.length < 2 ^ 64 ∧ sizeOfDirEntry * mid.length < 2 ^ 64 := by
  have hfile := hw.length
  have hrow := congrArg List.length hrows
  rw [List.length_append, List.length_append] at hrow
  unfold State.stringTable sizeOfDirEntry at *
  unfold maxFileSize at hlen
  omega

theorem length_take_survivors_le (s : State) (t : Nat → Option Bytes) (xs : List Nat) (i : Nat) :
    (((firstVisits xs).take i).flatMap (s.specialTarget t)).length ≤ (s.survivors t xs).length := by
  have hsplit := congrArg (List.flatMap (s.specialTarget t)) (List.take_append_drop i (firstVisits xs))
  rw [List.flatMap_append] at hsplit
  unfold State.survivors
  rw [← hsplit, List.length_append]
  exact Nat.le_add_right _ _

theorem specialTarget_of_special (hs : s.Sound contents t) (hsp : (s.heap.cells a).isSpecial = true) :
    t a = some (s.specialTarget t a) ∧ (s.heap.cells a).size = (s.specialTarget t a).length := by
  obtain ⟨name, hname, hsize, -⟩ := (hs.entry a).symlink (Bool.and_eq_true_iff.mp hsp).1
  have htarget : s.specialTarget t a = name := by
    unfold State.specialTarget
    rw [if_pos hsp, hname]
    rfl
  rw [htarget]
  exact ⟨hname, hsize⟩

variable {i : Nat}

theorem length_specialTarget_le (s : State) (t : Nat → Option Bytes) (hi : (firstVisits xs)[i]? = some a) :
    (s.specialTarget t a).length ≤ (s.survivors t xs).length := by
  obtain ⟨pre, post, hsplit⟩ := List.append_of_mem (List.mem_of_getElem? hi)
  unfold State.survivors
  rw [hsplit, List.flatMap_append, List.flatMap_cons, List.length_append, List.length_append]
  omega

/-- Where the target of a symlink is expected. -/
def State.targetOffset (s : State) (t : Nat → Option Bytes) (xs : List Nat) (contents : Bytes) (i : Nat) : Nat :=
  s.stringTable xs contents + (((firstVisits xs).take i).flatMap (s.specialTarget t)).length

theorem contents_le (s : State) (xs : List Nat) (contents : Bytes) : contents.length ≤ s.stringTable xs contents := by
  unfold State.stringTable State.direntTable
  omega

theorem symlink_of_not_special (hlnk : e.isType S_IFLNK = true) (hsp : e.isSpecial = false) : e.offset ≠ 0 := by
  unfold Entry.isSpecial at hsp
  rw [hlnk, Bool.true_and] at hsp
  exact of_decide_eq_false hsp

theorem not_special_of_not_symlink (hlnk : e.isType S_IFLNK = false) : e.isSpecial = false := by
  unfold Entry.isSpecial
  rw [hlnk]
  rfl

section Sound

variable (hs : s.Sound contents t)
include hs

theorem record_fits (hw : s.Written t xs contents file) (hlen : file.length ≤ maxFileSize)
    (hi : (firstVisits xs)[i]? = some a) :
    (((s.placed xs contents).1.cells a).record (s.targetOffset t xs contents i)).Fits := by
  have hfile := hw.length
  have hsurvive := length_survivors_le hs xs
  have hcontents := contents_le s xs contents
  have hmax : maxFileSize < 2 ^ 64 := by decide
  cases hdir : (s.heap.cells a).isType S_IFDIR with
  | true =>
    obtain ⟨pre, post, hrows, hrec⟩ := record_of_dir hs (mem_firstVisits.mp (List.mem_of_getElem? hi)) hdir
      (s.targetOffset t xs contents i)
    obtain ⟨hoffset, hsize⟩ := stretch_lt hw hlen hrows
    rw [hrec]
    exact inode_fits (hs.entry a) hoffset hsize
  | false =>
    rw [record_of_not_dir hs hdir]
    unfold Entry.record
    cases hlnk : (s.heap.cells a).isType S_IFLNK with
    | false =>
      rw [not_special_of_not_symlink hlnk, if_neg Bool.false_ne_true]
      exact inode_fits (hs.entry a) ((hs.entry a).other hlnk).2 ((hs.entry a).other hlnk).1
    | true =>
      cases hsp : (s.heap.cells a).isSpecial with
      | true =>
        have htake := length_take_survivors_le s t xs i
        have htarget := length_specialTarget_le s t hi
        have hsize := (specialTarget_of_special hs hsp).2
        have hoffset : s.targetOffset t xs contents i < 2 ^ 64 := by
          unfold State.targetOffset
          omega
        have hsize' : (s.heap.cells a).size < 2 ^ 64 := by omega
        rw [if_pos rfl]
        exact inode_fits (hs.entry a) hoffset hsize'
      | false =>
        obtain ⟨name, -, hsize, hheader⟩ := (hs.entry a).symlink hlnk
        obtain ⟨hoffset, hat⟩ := hheader (symlink_of_not_special hlnk hsp)
        have hname : name.length ≤ contents.length := by
          have hle := List.IsPrefix.length_le hat
          rw [List.length_drop] at hle
          omega
        have hoffset' : (s.heap.cells a).offset < 2 ^ 64 := by omega
        have hsize' : (s.heap.cells a).size < 2 ^ 64 := by omega
        rw [if_neg Bool.false_ne_true]
        exact inode_fits (hs.entry a) hoffset' hsize'

/-- The inode table is read as it was written. -/
theorem inodeAt_eq (hw : s.Written t xs contents file) (hlen : file.length ≤ maxFileSize)
    (hi : (firstVisits xs)[i]? = some a) :
    inodeAt contents file i = some (((s.placed xs contents).1.cells a).record (s.targetOffset t xs contents i)) := by
  have hrec := records_getElem? (s.placed xs contents).1 (s.stringTable xs contents) hi
  rw [placed_weights hs] at hrec
  exact Inode.read_of_prefix (record_fits hs hw hlen hi) (hw.inodes.record Inode.length_asBytes hrec)

/-! ### Directory entries -/

/-- Where the name of a row is expected. -/
def State.nameOffset (s : State) (t : Nat → Option Bytes) (xs : List Nat) (contents : Bytes) (k : Nat) : Nat :=
  s.stringTable xs contents + (s.survivors t xs).length + (nameBytes ((s.heap.rows xs).take k)).length

omit hs in
theorem length_nameBytes_le {cs : List (Bytes × Nat)} {k : Nat} {c : Bytes × Nat} (hk : cs[k]? = some c) :
    (nameBytes (cs.take k)).length + c.1.length ≤ (nameBytes cs).length := by
  obtain ⟨hlt, hc⟩ := List.getElem?_eq_some_iff.mp hk
  have hsplit := congrArg nameBytes (List.take_append_drop k cs)
  rw [List.drop_eq_getElem_cons hlt, hc] at hsplit
  have hlen := congrArg List.length hsplit
  unfold nameBytes at hlen ⊢
  rw [List.flatMap_append, List.flatMap_cons, List.length_append, List.length_append] at hlen
  omega

omit hs in
theorem mem_rows {h : Heap} {c : Bytes × Nat} (hc : c ∈ h.rows xs) :
    ∃ a ∈ xs, (h.cells a).isType S_IFDIR = true ∧ c ∈ (h.cells a).children := by
  obtain ⟨a, ha, hca⟩ := List.mem_flatMap.mp hc
  obtain ⟨hax, hdir⟩ := List.mem_filter.mp ha
  exact ⟨a, hax, hdir, hca⟩

theorem direntAt_eq (hw : s.Written t xs contents file) (hlen : file.length ≤ maxFileSize)
    {k c : Nat} {name : Bytes} (hk : (s.heap.rows xs)[k]? = some (name, c)) (hc : c ∈ xs) :
    s.direntAt xs contents file k = some
      { ino := (firstVisits xs).idxOf c + 1
        nameOffset := s.nameOffset t xs contents k
        nameLen := name.length
        etype := direntType (s.heap.cells c).mode } := by
  have hrec := dirents_getElem? (s.inodes xs contents).1 (s.stringTable xs contents + (s.survivors t xs).length) hk
  unfold Heap.dirent at hrec
  dsimp only at hrec
  rw [(inodes_cells hs c).1, (inodes_cells hs c).2.2 hc] at hrec
  refine DirEntry.read_of_prefix ?_ (hw.dirents.record DirEntry.length_asBytes hrec)
  have hfile := hw.length
  have hsurvive := length_survivors_le hs xs
  have hname := length_nameBytes_le hk
  have hidx : (firstVisits xs).idxOf c < (firstVisits xs).length :=
    List.idxOf_lt_length_of_mem (mem_firstVisits.mpr hc)
  have hmax : maxFileSize < 2 ^ 64 := by decide
  have htable : (firstVisits xs).length ≤ s.stringTable xs contents := by
    unfold State.stringTable State.direntTable sizeOfInode
    omega
  dsimp only at hname
  refine ⟨?_, ?_, ?_, direntType_lt _⟩
  · dsimp only
    omega
  · dsimp only [State.nameOffset]
    omega
  · dsimp only
    omega

/-! ### All pointers -/

theorem symlink_target_iff (hsp : (s.heap.cells a).isSpecial = true) :
    t a = some (slice file (s.targetOffset t xs contents i) (s.heap.cells a).size) ↔
      At file (s.targetOffset t xs contents i) (s.specialTarget t a) := by
  obtain ⟨htarget, hsize⟩ := specialTarget_of_special hs hsp
  rw [htarget, hsize, Option.some.injEq, eq_comm]
  exact slice_eq_iff rfl

/-- The record of an entry is right if its target is. -/
theorem record_describes (hw : s.Written t xs contents file)
    (hi : (firstVisits xs)[i]? = some a) (hat : At file (s.targetOffset t xs contents i) (s.specialTarget t a)) :
    s.Describes t xs contents file a
      (((s.placed xs contents).1.cells a).record (s.targetOffset t xs contents i)) := by
  cases hdir : (s.heap.cells a).isType S_IFDIR with
  | true =>
    obtain ⟨pre, post, hrows, hrec⟩ := record_of_dir hs (mem_firstVisits.mp (List.mem_of_getElem? hi)) hdir
      (s.targetOffset t xs contents i)
    rw [hrec]
    refine ⟨⟨_, _, rfl⟩, fun _ => ⟨pre, post, hrows, rfl, rfl⟩, fun hlnk => ?_, fun h => ?_⟩
    · rw [Entry.isType, decide_eq_true_eq] at hdir hlnk
      rw [hdir] at hlnk
      exact absurd hlnk (by decide)
    · rw [hdir] at h
      cases h
  | false =>
    rw [record_of_not_dir hs hdir]
    unfold Entry.record
    refine ⟨⟨_, _, rfl⟩, fun h => ?_, fun hlnk => ?_, fun _ hlnk => ?_⟩
    · rw [hdir] at h
      cases h
    · cases hsp : (s.heap.cells a).isSpecial with
      | true => exact (symlink_target_iff hs hsp).mpr hat
      | false =>
        obtain ⟨name, hname, hsize, hheader⟩ := (hs.entry a).symlink hlnk
        have hat := (hheader (symlink_of_not_special hlnk hsp)).2.mono hw.archive
        rw [hname, Option.some.injEq, eq_comm]
        exact (slice_eq_iff hsize.symm).mpr hat
    · rw [not_special_of_not_symlink hlnk]
      exact ⟨rfl, rfl⟩

theorem State.pointsRight_of_strings (hw : s.Written t xs contents file)
    (hlen : file.length ≤ maxFileSize) {fuel : Nat} (hord : order s.heap.kids fuel [s.root] = some xs)
    (hstrings : s.survivors t xs ++ nameBytes (s.heap.rows xs) <+:
      s.specialLink.flatten ++ nameBytes (s.heap.rows xs)) : s.PointsRight t xs contents file := by
  obtain ⟨htargets, hnames⟩ := at_append.mp ((strings_iff hw hs).mpr hstrings)
  refine ⟨?_, fun a ha => ?_, fun i a hi => ?_, fun k name c hk => ?_⟩
  · obtain ⟨ys, rfl⟩ := order_head hord
    rw [firstVisits, List.eraseDups_cons]
    rfl
  · rw [mem_firstVisits]
    induction ha with
    | refl => exact order_mem hord (List.mem_singleton_self s.root)
    | tail _ hbc ih => exact order_children hord ih hbc
  · exact ⟨_, inodeAt_eq hs hw hlen hi, record_describes hs hw hi (at_flatMap.mp htargets i a hi)⟩
  · obtain ⟨a, ha, -, hca⟩ := mem_rows (List.mem_of_getElem? hk)
    have hc : c ∈ xs := order_children hord ha (List.mem_map_of_mem hca)
    refine ⟨_, (firstVisits xs).idxOf c, direntAt_eq hs hw hlen hk hc, rfl,
      List.getElem?_idxOf (mem_firstVisits.mpr hc), ?_⟩
    exact (slice_eq_iff rfl).mpr (at_flatMap.mp hnames k (name, c) hk)

theorem State.pointsRight_iff_strings (hw : s.Written t xs contents file)
    (hlen : file.length ≤ maxFileSize) {fuel : Nat} (hord : order s.heap.kids fuel [s.root] = some xs) :
    s.PointsRight t xs contents file ↔
      s.survivors t xs ++ nameBytes (s.heap.rows xs) <+: s.specialLink.flatten ++ nameBytes (s.heap.rows xs) := by
  refine ⟨fun h => ?_, State.pointsRight_of_strings hs hw hlen hord⟩
  refine (strings_iff hw hs).mp (at_append.mpr ⟨at_flatMap.mpr fun i a hi => ?_, at_flatMap.mpr fun k c hk => ?_⟩)
  · cases hsp : (s.heap.cells a).isSpecial with
    | false =>
      unfold State.specialTarget
      rw [hsp]
      exact at_nil
    | true =>
      obtain ⟨r, hr, hd⟩ := h.inode i a hi
      have hlnk := (Bool.and_eq_true_iff.mp hsp).1
      have hdir : (s.heap.cells a).isType S_IFDIR = false := by
        cases hdir : (s.heap.cells a).isType S_IFDIR with
        | false => rfl
        | true => rw [not_special_of_dir hdir] at hsp; cases hsp
      rw [inodeAt_eq hs hw hlen hi, Option.some.injEq, record_of_not_dir hs hdir] at hr
      subst hr
      have htarget := hd.symlink hlnk
      unfold Entry.record at htarget
      rw [if_pos hsp] at htarget
      exact (symlink_target_iff hs hsp).mp htarget
  · obtain ⟨name, c⟩ := c
    obtain ⟨a, ha, -, hca⟩ := mem_rows (List.mem_of_getElem? hk)
    have hc : c ∈ xs := order_children hord ha (List.mem_map_of_mem hca)
    obtain ⟨d, i, hd, -, -, hname⟩ := h.dirent k name c hk
    rw [direntAt_eq hs hw hlen hk hc, Option.some.injEq] at hd
    subst hd
    exact (slice_eq_iff rfl).mp hname

end Sound

end Right

/-! ## `append_index` -/

/-- The order of the visits. -/
def Archive.visits (fuel : Nat) (ar : Archive) : List Nat := (order ar.state.heap.kids fuel [ar.state.root]).getD []

theorem appendIndex_eq_ok_iff {fuel : Nat} {ar : Archive} {file : Bytes} :
    appendIndex fuel ar = .ok file ↔ ar.broken = false ∧
      order ar.state.heap.kids fuel [ar.state.root] = some (ar.visits fuel) ∧
      file = ar.state.file (ar.visits fuel) ar.contents ∧ file.length ≤ maxFileSize := by
  unfold appendIndex Archive.visits
  rw [index_eq]
  cases ar.broken with
  | true =>
    rw [if_pos rfl]
    exact ⟨nofun, fun h => nomatch h.1⟩
  | false =>
    rw [if_neg Bool.false_ne_true]
    cases hord : order ar.state.heap.kids fuel [ar.state.root] with
    | none => exact ⟨nofun, fun h => nomatch h.2.1⟩
    | some xs =>
      dsimp only [Option.getD_some]
      by_cases hlen : (ar.state.file xs ar.contents).length ≤ maxFileSize
      · rw [if_pos hlen, Except.ok.injEq]
        constructor
        · intro hfile
          exact ⟨rfl, rfl, hfile.symm, hfile ▸ hlen⟩
        · rintro ⟨-, -, hfile, -⟩
          exact hfile.symm
      · rw [if_neg hlen]
        constructor
        · exact nofun
        · rintro ⟨-, -, hfile, hle⟩
          exact absurd (hfile ▸ hle) hlen

/-- The index of a genuine archive points at the right bytes exactly if the targets of the special
symlinks that are left, in the order of the index, and then the names are the first bytes of what is
written: the targets of all special symlinks of the archive, in the order of the archive, and then
the names. -/
theorem index_pointsRight_iff {fuel : Nat} {ar : Archive} {file : Bytes} (har : ar.Genuine)
    (hok : appendIndex fuel ar = .ok file) :
    ar.state.PointsRight ar.target (ar.visits fuel) ar.contents file ↔
      ar.state.survivors ar.target (ar.visits fuel) ++ nameBytes (ar.state.heap.rows (ar.visits fuel)) <+:
        ar.state.specialLink.flatten ++ nameBytes (ar.state.heap.rows (ar.visits fuel)) := by
  obtain ⟨-, hord, hfile, hlen⟩ := appendIndex_eq_ok_iff.mp hok
  rw [hfile] at hlen ⊢
  exact State.pointsRight_iff_strings (archive_sound har) (file_written (archive_sound har) _) hlen hord

theorem survivors_eq (s : State) (t : Nat → Option Bytes) (xs : List Nat) : s.survivors t xs =
    (((firstVisits xs).filter fun a => (s.heap.cells a).isSpecial).map fun a => (t a).getD []).flatten := by
  unfold State.survivors
  induction firstVisits xs with
  | nil => rfl
  | cons a l ih =>
    rw [List.flatMap_cons, ih, State.specialTarget]
    by_cases ha : (s.heap.cells a).isSpecial = true
    · rw [if_pos ha, List.filter_cons, if_pos ha]
      rfl
    · rw [if_neg ha, List.filter_cons, if_neg ha]
      rfl

/-- So it does if all special symlinks of the archive are left, and their order is that of the
archive. -/
theorem pointsRight_of_survivors {fuel : Nat} {ar : Archive} {file : Bytes} (har : ar.Genuine)
    (hok : appendIndex fuel ar = .ok file)
    (hleft : ((firstVisits (ar.visits fuel)).filter fun a => (ar.state.heap.cells a).isSpecial).map
      (fun a => (ar.target a).getD []) = ar.state.specialLink) :
    ar.state.PointsRight ar.target (ar.visits fuel) ar.contents file := by
  obtain ⟨-, hord, hfile, hlen⟩ := appendIndex_eq_ok_iff.mp hok
  rw [hfile] at hlen ⊢
  refine (State.pointsRight_iff_strings (archive_sound har) (file_written (archive_sound har) _) hlen hord).mpr ?_
  rw [survivors_eq, hleft]

theorem length_file_le {contents : Bytes} {s : State} {t : Nat → Option Bytes}
    (hs : s.Sound contents t) (xs : List Nat) :
    (s.file xs contents).length ≤ s.stringTable xs contents + (s.survivors t xs).length +
      (nameBytes (s.heap.rows xs)).length + s.specialLink.flatten.length + (nameBytes
        (s.heap.rows xs)).length + 8192 := by
  have hnames := names_end hs xs
  have halign : align (s.names xs contents).2.1 ≤ (s.names xs contents).2.1 + 4096 := by
    unfold align alignment
    omega
  rw [length_file hs xs]
  unfold alignment
  omega

/-- A symlink `a` to `xy`, which an extension of the format gives; the header says `x`. -/
def longLink : TarEntry :=
  { path := [97], type := .symlink, mode := some 0o777, size := 0, rawFilePosition := 1536, rawHeaderPosition := 1024,
    linkName := some [120, 121], headerLinkName := some [120], deviceMajor := none,
      deviceMinor := none, mtime := some 0,
    uid := some 0, gid := some 0 }

/-- The file in its place. -/
def laterFile : TarEntry :=
  { longLink with type := .regular, rawFilePosition := 2048, rawHeaderPosition := 1536, linkName := none,
                  headerLinkName := none }

/-- Six blocks, with the link name in the header of the third. -/
def linkBlocks : Bytes := List.replicate 1181 0 ++ [120] ++ List.replicate 1890 0

theorem length_linkBlocks : linkBlocks.length = 3072 := by
  unfold linkBlocks
  simp only [List.length_append, List.length_replicate, List.length_singleton]

theorem longLink_genuine : longLink.Genuine linkBlocks := by
  constructor
  · rw [length_linkBlocks]
    decide
  · intro name hname
    cases hname
    have hat : At linkBlocks (List.replicate 1181 (0 : UInt8)).length [120] := at_of_append _ _
    rw [List.length_replicate] at hat
    exact hat

theorem laterFile_genuine : laterFile.Genuine linkBlocks := by
  constructor
  · rw [length_linkBlocks]
    decide
  · exact nofun

/-- An archive of the symlink, with or without the file in its place. -/
def linkArchive (entries : List TarEntry) : Archive := { contents := linkBlocks, entries, broken := false }

/-- Such an archive is indexed. -/
theorem linkArchive_indexed {entries : List TarEntry} (hg : (linkArchive entries).Genuine) (fuel n : Nat)
    (hord : (order (linkArchive entries).state.heap.kids fuel [(linkArchive entries).state.root]).isSome = true)
    (hn : sizeOfInode * (firstVisits ((linkArchive entries).visits fuel)).length +
      sizeOfDirEntry * ((linkArchive entries).state.heap.rows ((linkArchive entries).visits fuel)).length +
      ((linkArchive entries).state.survivors (linkArchive entries).target
        ((linkArchive entries).visits fuel)).length +
      2 * (nameBytes ((linkArchive entries).state.heap.rows ((linkArchive entries).visits fuel))).length +
      (linkArchive entries).state.specialLink.flatten.length ≤ n) (hmax : n < 2 ^ 32) :
    ∃ file, appendIndex fuel (linkArchive entries) = .ok file := by
  obtain ⟨xs, hxs⟩ := Option.isSome_iff_exists.mp hord
  have hvisits : (linkArchive entries).visits fuel = xs := by
    unfold Archive.visits
    rw [hxs]
    rfl
  refine ⟨_, appendIndex_eq_ok_iff.mpr ⟨rfl, by rw [hvisits]; exact hxs, rfl, ?_⟩⟩
  have hlen := length_file_le (archive_sound hg) ((linkArchive entries).visits fuel)
  have hblocks : (linkArchive entries).contents.length = 3072 := length_linkBlocks
  unfold State.stringTable State.direntTable at hlen
  have hbound : n + 11264 ≤ maxFileSize := by
    unfold maxFileSize
    omega
  omega

theorem keptLink_genuine : (linkArchive [longLink]).Genuine := by
  intro f hf
  have hf : f = longLink := List.mem_singleton.mp hf
  rw [hf]
  exact longLink_genuine

theorem replacedLink_genuine : (linkArchive [longLink, laterFile]).Genuine := by
  intro f hf
  have hf : f ∈ [longLink, laterFile] := hf
  rcases List.mem_pair.mp hf with hf | hf
  · rw [hf]
    exact longLink_genuine
  · rw [hf]
    exact laterFile_genuine

/-- The symlink alone: its target is found. -/
theorem index_pointsRight_iff_keptLink :
    ∃ file, appendIndex 2 (linkArchive [longLink]) = .ok file ∧
      (linkArchive [longLink]).state.PointsRight (linkArchive [longLink]).target ((linkArchive [longLink]).visits 2)
        (linkArchive [longLink]).contents file := by
  obtain ⟨file, hok⟩ := linkArchive_indexed keptLink_genuine 2 200 (by decide) (by decide) (by decide)
  exact ⟨file, hok, (index_pointsRight_iff keptLink_genuine hok).mpr (by decide)⟩

/-- The file in place of the symlink: the record for the name `a` points at the `x` of the target
that nobody has. -/
theorem replacedLink_misnamed :
    (linkArchive [longLink, laterFile]).Genuine ∧
      ∃ file, appendIndex 2 (linkArchive [longLink, laterFile]) = .ok file ∧
        ¬ (linkArchive [longLink, laterFile]).state.PointsRight (linkArchive [longLink, laterFile]).target
          ((linkArchive [longLink, laterFile]).visits 2) (linkArchive [longLink, laterFile]).contents file := by
  obtain ⟨file, hok⟩ := linkArchive_indexed replacedLink_genuine 2 200 (by decide) (by decide) (by decide)
  refine ⟨replacedLink_genuine, file, hok, fun hright => ?_⟩
  obtain ⟨-, hord, hfile, hlen⟩ := appendIndex_eq_ok_iff.mp hok
  have hs := archive_sound replacedLink_genuine
  rw [hfile] at hlen hright
  exact absurd ((State.pointsRight_iff_strings hs (file_written hs _) hlen hord).mp hright) (by decide)

end Kata.TarIndex
