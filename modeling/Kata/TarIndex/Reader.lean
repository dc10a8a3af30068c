import Kata.Lib.U64
import Kata.TarIndex.Layout

/-!
# Kata.TarIndex.Reader

How `utarfs` (`utarfs/src/fs.rs`) reads a file with an index: `Tar::new`, `inode`, `attr`,
`for_each`, `lookup`, `read` and `readlink`. Slices out of range and `unwrap`s of records that are
not there are panics. `resolve` follows a path by one lookup for each name, as the kernel does it.

For a file that `append_index` wrote and whose strings are right, a lookup finds the child of that
name (`lookup_eq`), and a path resolves exactly if all entries before its end are directories and
all have a type (`resolve_of_walk`, `walk_of_resolve`).
-/

namespace Kata.TarIndex

open Lib

inductive ReadError where
  | unexpectedEof
  | enoent
  | einval
  | panic
deriving DecidableEq, Repr

structure Tar where
  inodeTableOffset : Nat
  inodeCount : Nat
  data : Bytes

/-- `unwrap` of what was read at a position. -/
def unwrap {α : Type} : Option α → Except ReadError α
  | some a => .ok a
  | none => .error .panic

def Tar.new (data : Bytes) (lastOffset : Nat) : Except ReadError Tar :=
  if lastOffset > data.length then .error .unexpectedEof
  else if lastOffset < 512 then .error .unexpectedEof
  else do
    let sb ← unwrap (SuperBlock.readFromPrefix (data.drop (lastOffset - 512)))
    .ok { inodeTableOffset := sb.inodeTableOffset, inodeCount := sb.inodeCount, data }

/-- `&data[o..][..n]` -/
def Tar.bytes (t : Tar) (o n : Nat) : Except ReadError Bytes :=
  if o ≤ t.data.length ∧ n ≤ t.data.length - o then .ok (slice t.data o n) else .error .panic

def Tar.inode (checks : Bool) (t : Tar) (ino : Nat) : Except ReadError Inode :=
  if ino < 1 ∨ ino > t.inodeCount then .error .enoent
  else do
    let before ← U64.mul checks .panic (ino - 1) sizeOfInode
    let pos ← U64.add checks .panic t.inodeTableOffset before
    unwrap (Inode.readFromPrefix (t.data.drop pos))

/-! ## Attributes -/

inductive FileType where
  | namedPipe
  | charDevice
  | directory
  | blockDevice
  | regularFile
  | symlink
  | socket
deriving DecidableEq, Repr

def fileType (mode : Nat) : Option FileType :=
  let type := mode &&& S_IFMT
  if type = S_IFIFO then some .namedPipe
  else if type = S_IFCHR then some .charDevice
  else if type = S_IFDIR then some .directory
  else if type = S_IFBLK then some .blockDevice
  else if type = S_IFREG then some .regularFile
  else if type = S_IFLNK then some .symlink
  else if type = S_IFSOCK then some .socket
  else none

/-- What `attr` returns; the four times are the same, the other fields are constants. -/
structure FileAttr where
  ino : Nat
  size : Nat
  blocks : Nat
  time : Nat
  kind : FileType
  perm : Nat
  uid : Nat
  gid : Nat
  rdev : Nat
deriving DecidableEq, Repr

def tarfsBsize : Nat := 4096

/-- The function of libc. -/
def makedev (major minor : Nat) : Nat :=
  (major &&& 0x00000fff) <<< 8 ||| (major &&& 0xfffff000) <<< 32 ||| (minor &&& 0x000000ff) |||
    (minor &&& 0xffffff00) <<< 12

def Inode.rdev (i : Inode) : FileType → Nat
  | .blockDevice | .charDevice => makedev ((i.offset >>> 32) % 2 ^ 32) (i.offset % 2 ^ 32) % 2 ^ 32
  | _ => 0

def Tar.attr (checks : Bool) (t : Tar) (ino : Nat) : Except ReadError FileAttr := do
  let inode ← t.inode checks ino
  match fileType inode.mode with
  | none => .error .enoent
  | some kind =>
    let end' ← U64.add checks .panic inode.size tarfsBsize
    let last ← U64.sub checks .panic end' 1
    .ok
      { ino := ino
        size := inode.size
        blocks := last / tarfsBsize
        time := inode.lmtime ||| inode.hmtime <<< 32
        kind := kind
        perm := inode.mode &&& 0o777
        uid := inode.owner
        gid := inode.group
        rdev := inode.rdev kind }

/-! ## Directories -/

section ForEach

variable {α : Type}

/-- The loop of `for_each` over the offsets. -/
def Tar.scan (checks : Bool) (t : Tar) (base : Nat) (cb : DirEntry → Nat → Except ReadError (Option α)) :
    List Nat → Except ReadError (Option α)
  | [] => .ok none
  | offset :: rest => do
    let pos ← U64.add checks .panic base offset
    let dentry ← unwrap (DirEntry.readFromPrefix (t.data.drop pos))
    match ← cb dentry offset with
    | some v => .ok (some v)
    | none => t.scan checks base cb rest

/-- `(first..last).step_by(step)` -/
def stepBy (first last step : Nat) : List Nat :=
  (List.range ((last - first + (step - 1)) / step)).map fun k => first + step * k

def Tar.forEach (checks : Bool) (t : Tar) (parent : Nat) (first : Int)
    (cb : DirEntry → Nat → Except ReadError (Option α)) : Except ReadError (Option α) := do
  let inode ← t.inode checks parent
  if inode.mode &&& S_IFMT ≠ S_IFDIR then .error .enoent
  else if first < 0 ∨ first % (sizeOfDirEntry : Int) ≠ 0 then .error .enoent
  else t.scan checks inode.offset cb (stepBy first.toNat inode.size sizeOfDirEntry)

end ForEach

/-- The callback of `lookup`. -/
def Tar.matchName (checks : Bool) (t : Tar) (name : Bytes) (dentry : DirEntry) (_ : Nat) :
    Except ReadError (Option FileAttr) := do
  let ename ← t.bytes dentry.nameOffset dentry.nameLen
  if ename ≠ name then .ok none
  else do
    let a ← t.attr checks dentry.ino
    .ok (some a)

def Tar.lookup (checks : Bool) (t : Tar) (parent : Nat) (name : Bytes) : Except ReadError FileAttr := do
  match ← t.forEach checks parent 0 (t.matchName checks name) with
  | some a => .ok a
  | none => .error .enoent

/-- One lookup for each name of a path. -/
def Tar.resolve (checks : Bool) (t : Tar) : Nat → List Bytes → Except ReadError FileAttr
  | ino, [] => t.attr checks ino
  | ino, name :: path => do
    let a ← t.lookup checks ino name
    t.resolve checks a.ino path

/-! ## Data -/

def Tar.read (checks : Bool) (t : Tar) (ino : Nat) (offset : Int) (size : Nat) : Except ReadError Bytes := do
  let inode ← t.inode checks ino
  if inode.mode &&& S_IFMT ≠ S_IFREG then .error .enoent
  else if offset < 0 then .error .einval
  else if offset.toNat ≥ inode.size then .ok []
  else do
    let pos ← U64.add checks .panic inode.offset offset.toNat
    t.bytes pos (min (inode.size - offset.toNat) size)

def Tar.readlink (checks : Bool) (t : Tar) (ino : Nat) : Except ReadError Bytes := do
  let inode ← t.inode checks ino
  if inode.mode &&& S_IFMT ≠ S_IFLNK then .error .enoent
  else t.bytes inode.offset inode.size

/-! ## Files with an index -/

/-- A file that `append_index` wrote, with strings that are right. -/
structure Indexed (s : State) (t : Nat → Option Bytes) (xs : List Nat) (contents file : Bytes) : Prop where
  sound : s.Sound contents t
  written : s.Written t xs contents file
  length : file.length ≤ maxFileSize
  closed : ∀ a ∈ xs, ∀ b ∈ s.heap.kids a, b ∈ xs
  strings : At file (s.stringTable xs contents) (s.survivors t xs ++ nameBytes (s.heap.rows xs))

/-- The file as `Tar::new` opens it. -/
def opened (xs : List Nat) (contents file : Bytes) : Tar :=
  { inodeTableOffset := contents.length, inodeCount := (firstVisits xs).length, data := file }

/-- The number of the inode of an entry. -/
def number (xs : List Nat) (a : Nat) : Nat := (firstVisits xs).idxOf a + 1

section Opened

variable {s : State} {t : Nat → Option Bytes} {xs : List Nat} {contents file : Bytes} {a b c : Nat} {checks : Bool}

section

variable (hI : Indexed s t xs contents file)
include hI

theorem Indexed.le_max {n : Nat} (hn : n ≤ file.length) : n ≤ U64.max := by
  have hlen := hI.length
  unfold maxFileSize at hlen
  unfold U64.max
  omega

/-- The inode of an entry is read as it was written. -/
theorem Indexed.inode_record (ha : a ∈ xs) (checks : Bool) :
    (opened xs contents file).inode checks (number xs a) = .ok (((s.placed xs contents).1.cells a).record
      (s.targetOffset t xs contents ((firstVisits xs).idxOf a))) := by
  have hi : (firstVisits xs)[(firstVisits xs).idxOf a]? = some a := List.getElem?_idxOf (mem_firstVisits.mpr ha)
  have hlt : (firstVisits xs).idxOf a < (firstVisits xs).length :=
    List.idxOf_lt_length_of_mem (mem_firstVisits.mpr ha)
  have hfile := hI.written.length
  have hread := inodeAt_eq hI.sound hI.written hI.length hi
  have htable : contents.length + sizeOfInode * (firstVisits xs).length ≤ file.length := by
    unfold State.stringTable State.direntTable at hfile
    omega
  have hpos : contents.length + (firstVisits xs).idxOf a * sizeOfInode ≤ file.length := by
    unfold sizeOfInode at *
    omega
  have hrange : ¬ ((firstVisits xs).idxOf a + 1 < 1 ∨ (firstVisits xs).idxOf a + 1 > (firstVisits xs).length) := by
    omega
  dsimp only [Tar.inode, number, opened]
  rw [if_neg hrange, Nat.add_sub_cancel, U64.mul_of_le (hI.le_max (Nat.le_trans (Nat.le_add_left _ _) hpos)), ok_bind,
    U64.add_of_le (hI.le_max hpos), ok_bind, Nat.mul_comm]
  show unwrap (inodeAt contents file _) = _
  rw [hread]
  rfl

theorem Indexed.target_at (ha : a ∈ xs) :
    At file (s.targetOffset t xs contents ((firstVisits xs).idxOf a)) (s.specialTarget t a) :=
  at_flatMap.mp (at_append.mp hI.strings).1 _ a (List.getElem?_idxOf (mem_firstVisits.mpr ha))

theorem Indexed.inode_eq (ha : a ∈ xs) (checks : Bool) :
    ∃ r, (opened xs contents file).inode checks (number xs a) = .ok r ∧ s.Describes t xs contents file a r :=
  ⟨_, hI.inode_record ha checks, record_describes hI.sound hI.written (List.getElem?_idxOf (mem_firstVisits.mpr ha))
    (hI.target_at ha)⟩

end

/-! ### Attributes -/

theorem Describes.mode_eq {r : Inode} (hd : s.Describes t xs contents file a r) : r.mode = (s.heap.cells a).mode := by
  obtain ⟨offset, size, hr⟩ := hd.fields
  rw [hr]
  rfl

theorem attr_ino {tar : Tar} {ino : Nat} {x : FileAttr} (h : tar.attr checks ino = .ok x) : x.ino = ino := by
  unfold Tar.attr at h
  obtain ⟨inode, -, h⟩ := bind_eq_ok.mp h
  cases hkind : fileType inode.mode with
  | none =>
    rw [hkind] at h
    cases h
  | some kind =>
    rw [hkind] at h
    obtain ⟨_, -, h⟩ := bind_eq_ok.mp h
    obtain ⟨_, -, h⟩ := bind_eq_ok.mp h
    cases h
    rfl

section Indexed

variable (hI : Indexed s t xs contents file)
include hI

theorem Indexed.kind_of_attr (ha : a ∈ xs) {x : FileAttr}
    (h : (opened xs contents file).attr checks (number xs a) = .ok x) :
    fileType (s.heap.cells a).mode = some x.kind := by
  obtain ⟨r, hr, hd⟩ := hI.inode_eq ha checks
  unfold Tar.attr at h
  rw [hr, ok_bind, Describes.mode_eq hd] at h
  cases hkind : fileType (s.heap.cells a).mode with
  | none =>
    rw [hkind] at h
    cases h
  | some kind =>
    rw [hkind] at h
    obtain ⟨_, -, h⟩ := bind_eq_ok.mp h
    obtain ⟨_, -, h⟩ := bind_eq_ok.mp h
    cases h
    rfl

theorem Indexed.attr_eq (ha : a ∈ xs) {kind : FileType}
    (hkind : fileType (s.heap.cells a).mode = some kind) {r : Inode}
    (hr : (opened xs contents file).inode checks (number xs a) = .ok r) (hsize : r.size ≤ file.length) :
    (opened xs contents file).attr checks (number xs a) = .ok
      { ino := number xs a, size := r.size, blocks := (r.size + tarfsBsize - 1) / tarfsBsize,
        time := r.lmtime ||| r.hmtime <<< 32, kind := kind, perm := r.mode &&& 0o777, uid := r.owner, gid := r.group,
        rdev := r.rdev kind } := by
  obtain ⟨r', hr', hd⟩ := hI.inode_eq ha checks
  rw [hr, Except.ok.injEq] at hr'
  subst hr'
  have hlen := hI.length
  have hadd : r.size + tarfsBsize ≤ U64.max := by
    unfold maxFileSize at hlen
    unfold U64.max tarfsBsize
    omega
  unfold Tar.attr
  rw [hr, ok_bind, Describes.mode_eq hd, hkind]
  dsimp only
  rw [U64.add_of_le hadd, ok_bind, U64.sub_of_le (by unfold tarfsBsize; omega), ok_bind]

/-! ### Lookups -/

omit hI in
theorem bytes_eq {o n : Nat} {u : Bytes} (hu : At file o u) (hn : u.length = n) (ho : o + n ≤ file.length) :
    (opened xs contents file).bytes o n = .ok u := by
  unfold Tar.bytes
  show (if o ≤ file.length ∧ n ≤ file.length - o then _ else _) = _
  rw [if_pos (by omega)]
  exact congrArg Except.ok ((slice_eq_iff hn).mpr hu)

theorem Indexed.matchName_eq (checks : Bool) (name : Bytes)
    {k : Nat} {ename : Bytes}
    (hk : (s.heap.rows xs)[k]? = some (ename, c)) (hc : c ∈ xs) (o : Nat) :
    ∃ d, s.direntAt xs contents file k = some d ∧
      (opened xs contents file).matchName checks name d o =
        if ename ≠ name then .ok none
        else (opened xs contents file).attr checks (number xs c) >>= fun x => .ok (some x) := by
  have hfile := hI.written.length
  have hsurvive := length_survivors_le hI.sound xs
  have hnames := length_nameBytes_le hk
  dsimp only at hnames
  have hat := at_flatMap.mp (at_append.mp hI.strings).2 k (ename, c) hk
  have hend : s.nameOffset t xs contents k + ename.length ≤ file.length := by
    unfold State.nameOffset
    omega
  have hbytes : (opened xs contents file).bytes (s.nameOffset t xs contents k) ename.length = .ok ename :=
    bytes_eq hat rfl hend
  refine ⟨_, direntAt_eq hI.sound hI.written hI.length hk hc, ?_⟩
  unfold Tar.matchName
  dsimp only
  rw [hbytes, ok_bind]
  rfl

/-- The loop over the records of a stretch, from the `k`-th one on. -/
theorem Indexed.scan_eq (checks : Bool) (name : Bytes)
    (start : Nat) (rest : List (Bytes × Nat))
    (k : Nat) (hrows : ∀ j c, rest[j]? = some c → (s.heap.rows xs)[start + (k + j)]? = some c)
    (hrest : ∀ c ∈ rest, c.2 ∈ xs) :
    (opened xs contents file).scan checks (s.direntTable xs contents + sizeOfDirEntry * start)
        ((opened xs contents file).matchName checks name) ((List.range' k rest.length).map fun j =>
          0 + sizeOfDirEntry * j) =
      match rest.lookup name with
      | some c => (opened xs contents file).attr checks (number xs c) >>= fun x => .ok (some x)
      | none => .ok none := by
  induction rest generalizing k with
  | nil => rfl
  | cons row rest ih =>
    obtain ⟨ename, c⟩ := row
    obtain ⟨hc, hrest⟩ := List.forall_mem_cons.mp hrest
    have hk := hrows 0 (ename, c) rfl
    obtain ⟨hlt, -⟩ := List.getElem?_eq_some_iff.mp hk
    have hfile := hI.written.length
    have hpos : s.direntTable xs contents + sizeOfDirEntry * start + (0 + sizeOfDirEntry * k) ≤ file.length := by
      unfold State.stringTable sizeOfDirEntry at *
      omega
    have hsame : s.direntTable xs contents + sizeOfDirEntry * start + (0 + sizeOfDirEntry * k)
        = s.direntTable xs contents + sizeOfDirEntry * (start + (k + 0)) := by
      unfold sizeOfDirEntry
      omega
    obtain ⟨d, hd, hmatch⟩ := hI.matchName_eq checks name hk hc (0 + sizeOfDirEntry * k)
    have hread : DirEntry.readFromPrefix ((opened xs contents file).data.drop
        (s.direntTable xs contents + sizeOfDirEntry * start + (0 + sizeOfDirEntry * k))) = some d := by
      rw [hsame]
      exact hd
    rw [List.length_cons, List.range'_succ, List.map_cons, Tar.scan, U64.add_of_le (hI.le_max hpos), ok_bind, hread]
    show ((opened xs contents file).matchName checks name d _ >>= _) = _
    rw [hmatch]
    by_cases hname : ename = name
    · subst hname
      rw [if_neg (not_not.mpr rfl), List.lookup_cons_self]
      dsimp only
      cases (opened xs contents file).attr checks (number xs c) with
      | error e | ok x => rfl
    · rw [if_pos hname, SortedMap.lookup_cons_of_ne (Ne.symm hname)]
      refine ih (k + 1) (fun j c hj => ?_) hrest
      rw [Nat.add_right_comm k 1 j]
      exact hrows (j + 1) c hj

omit hI in
theorem stepBy_zero (n : Nat) :
    stepBy 0 (sizeOfDirEntry * n) sizeOfDirEntry = (List.range' 0 n).map fun j => 0 + sizeOfDirEntry * j := by
  have hcount : (sizeOfDirEntry * n - 0 + (sizeOfDirEntry - 1)) / sizeOfDirEntry = n := by
    unfold sizeOfDirEntry
    omega
  unfold stepBy
  rw [hcount, List.range_eq_range']

theorem Indexed.lookup_eq (ha : a ∈ xs)
    (hdir : (s.heap.cells a).isType S_IFDIR = true) (name : Bytes) :
    (opened xs contents file).lookup checks (number xs a) name =
      match (s.heap.cells a).children.lookup name with
      | some c => (opened xs contents file).attr checks (number xs c)
      | none => .error .enoent := by
  obtain ⟨r, hr, hd⟩ := hI.inode_eq ha checks
  obtain ⟨pre, post, hrows, hoffset, hsize⟩ := hd.directory hdir
  have hscan := hI.scan_eq checks name pre.length (s.heap.cells a).children 0 (fun j c hj => ?_)
    (fun c hc => hI.closed a ha c.2 (List.mem_map_of_mem hc))
  · unfold Tar.lookup Tar.forEach
    rw [hr, ok_bind, Describes.mode_eq hd, if_neg (not_not.mpr (of_decide_eq_true hdir)),
      if_neg (by decide), hoffset, hsize]
    show ((opened xs contents file).scan checks _ _ (stepBy 0 _ _) >>= _) = _
    rw [stepBy_zero, hscan]
    cases (s.heap.cells a).children.lookup name with
    | none => rfl
    | some c =>
      dsimp only
      cases (opened xs contents file).attr checks (number xs c) with
      | error e | ok x => rfl
  · obtain ⟨hlt, -⟩ := List.getElem?_eq_some_iff.mp hj
    rw [hrows, Nat.zero_add, List.append_assoc, List.getElem?_append_right (Nat.le_add_right _ _),
      Nat.add_sub_cancel_left, List.getElem?_append_left hlt]
    exact hj

theorem Indexed.lookup_of_not_dir (ha : a ∈ xs)
    (hdir : (s.heap.cells a).isType S_IFDIR = false) (name : Bytes) :
    (opened xs contents file).lookup checks (number xs a) name = .error .enoent := by
  obtain ⟨r, hr, hd⟩ := hI.inode_eq ha checks
  unfold Tar.lookup Tar.forEach
  rw [hr, ok_bind, Describes.mode_eq hd, if_pos (of_decide_eq_false hdir)]
  rfl

/-! ### Paths -/

theorem Indexed.child_mem (ha : a ∈ xs) {name : Bytes}
    (hl : (s.heap.cells a).children.lookup name = some b) : b ∈ xs :=
  hI.closed a ha b (List.mem_map_of_mem (SortedMap.mem_of_lookup hl))

theorem Indexed.resolve_of_walk (checks : Bool) (path : List Bytes) (ha : a ∈ xs)
    (hwalk : walk s.heap a path = some c)
    (hdirs : ∀ r, r <+: path → r ≠ path → ∀ b, walk s.heap a r = some b → (s.heap.cells b).isType S_IFDIR = true)
    (hattr : ∀ r, r <+: path → ∀ b ∈ xs, walk s.heap a r = some b →
      ∃ x, (opened xs contents file).attr checks (number xs b) = .ok x) :
    c ∈ xs ∧ (opened xs contents file).resolve checks (number xs a) path
      = (opened xs contents file).attr checks (number xs c) := by
  induction path generalizing a with
  | nil =>
    cases hwalk
    exact ⟨ha, rfl⟩
  | cons name path ih =>
    obtain ⟨b, hl, hwalk⟩ := Option.bind_eq_some_iff.mp hwalk
    have hb := hI.child_mem ha hl
    have hdir := hdirs [] List.nil_prefix (List.cons_ne_nil name path).symm a rfl
    have hstep : ∀ r, walk s.heap a (name :: r) = walk s.heap b r := by
      intro r
      rw [walk, hl]
      rfl
    obtain ⟨x, hx⟩ := hattr [name] (List.prefix_append [name] path) b hb (hstep [])
    have hrest := ih hb hwalk
      (fun r hr hne b' hb' => hdirs (name :: r) (List.cons_prefix_cons.mpr ⟨rfl, hr⟩)
        (fun h => hne (List.cons.inj h).2) b'
        ((hstep r).trans hb'))
      (fun r hr b' hmem hb' => hattr (name :: r) (List.cons_prefix_cons.mpr ⟨rfl, hr⟩) b' hmem ((hstep r).trans hb'))
    refine ⟨hrest.1, ?_⟩
    rw [Tar.resolve, hI.lookup_eq ha hdir, hl]
    dsimp only
    rw [hx, ok_bind, attr_ino hx]
    exact hrest.2

theorem Indexed.walk_of_resolve (path : List Bytes) (ha : a ∈ xs) {x : FileAttr}
    (hres : (opened xs contents file).resolve checks (number xs a) path = .ok x) :
    (∃ c ∈ xs, walk s.heap a path = some c ∧ (opened xs contents file).attr checks (number xs c) = .ok x) ∧
      ∀ r, r <+: path → r ≠ path → ∃ b, walk s.heap a r = some b ∧ (s.heap.cells b).isType S_IFDIR = true := by
  induction path generalizing a with
  | nil =>
    refine ⟨⟨a, ha, rfl, hres⟩, fun r hr hne => ?_⟩
    exact absurd (List.prefix_nil.mp hr) hne
  | cons name path ih =>
    rw [Tar.resolve] at hres
    obtain ⟨y, hy, hres⟩ := bind_eq_ok.mp hres
    cases hdir : (s.heap.cells a).isType S_IFDIR with
    | false =>
      rw [hI.lookup_of_not_dir ha hdir] at hy
      cases hy
    | true =>
      rw [hI.lookup_eq ha hdir] at hy
      cases hl : (s.heap.cells a).children.lookup name with
      | none =>
        rw [hl] at hy
        cases hy
      | some b =>
        rw [hl] at hy
        dsimp only at hy
        have hstep : ∀ r, walk s.heap a (name :: r) = walk s.heap b r := by
          intro r
          rw [walk, hl]
          rfl
        rw [attr_ino hy] at hres
        obtain ⟨⟨c, hc, hwalk, hx⟩, hdirs⟩ := ih (hI.child_mem ha hl) hres
        refine ⟨⟨c, hc, (hstep path).trans hwalk, hx⟩, fun r hr hne => ?_⟩
        cases r with
        | nil => exact ⟨a, rfl, hdir⟩
        | cons n r =>
          obtain ⟨rfl, hrest⟩ := List.cons_prefix_cons.mp hr
          obtain ⟨b', hb', hdir'⟩ := hdirs r hrest fun h => hne (congrArg _ h)
          exact ⟨b', (hstep r).trans hb', hdir'⟩

end Indexed

end Opened

end Kata.TarIndex
