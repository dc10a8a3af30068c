import Kata.Lib.SortedMap

/-!
# Kata.TarIndex.Tree

How `append_index` (`tardev-snapshotter/tarindex/src/lib.rs`) reads the entries of a tar archive
into a tree. An `Rc<RefCell<Entry>>` is an address of a heap: hard links make two names refer to the
same entry, and an entry that is replaced is replaced under all its names.

What the `tar` crate returns for an entry is the input (`TarEntry`); an entry type that is not
handled is `other`.
-/

namespace Kata.TarIndex

open Lib

abbrev Bytes := List UInt8

/-! ## Modes -/

def S_IFMT : Nat := 0o170000
def S_IFLNK : Nat := 0o120000
def S_IFREG : Nat := 0o100000
def S_IFSOCK : Nat := 0o140000
def S_IFBLK : Nat := 0o060000
def S_IFDIR : Nat := 0o040000
def S_IFCHR : Nat := 0o020000
def S_IFIFO : Nat := 0o010000

/-! ## The archive -/

inductive EntryType where
  | regular
  | directory
  | fifo
  | char
  | block
  | symlink
  | link
  | other
deriving DecidableEq, Repr

/-- An entry as the `tar` crate gives it: a header field is `none` if it cannot be read. `linkName`
is from the extensions of the format if there are any, `headerLinkName` always from the header. -/
structure TarEntry where
  path : Bytes
  type : EntryType
  mode : Option UInt32
  size : UInt64
  rawFilePosition : UInt64
  rawHeaderPosition : UInt64
  linkName : Option Bytes
  headerLinkName : Option Bytes
  deviceMajor : Option UInt32
  deviceMinor : Option UInt32
  mtime : Option UInt64
  uid : Option UInt64
  gid : Option UInt64
deriving DecidableEq, Repr

/-! ## Entries of the tree -/

structure Entry where
  offset : Nat := 0
  size : Nat := 0
  children : List (Bytes × Nat) := []
  mode : Nat := 0
  ino : Nat := 0
  emitted : Bool := false
  isOpaque : Bool := false
  mtime : Nat := 0
  owner : Nat := 0
  group : Nat := 0
deriving DecidableEq, Repr, Inhabited

def Entry.isType (e : Entry) (type : Nat) : Bool := e.mode &&& S_IFMT = type

structure Heap where
  cells : Nat → Entry
  next : Nat

def Heap.set (h : Heap) (a : Nat) (e : Entry) : Heap := { h with cells := fun b => if b = a then e else h.cells b }

@[simp] theorem Heap.set_cells_self (h : Heap) (a : Nat) (e : Entry) : (h.set a e).cells a = e :=
  if_pos rfl

theorem Heap.set_cells_of_ne {a b : Nat} (hb : b ≠ a) (h : Heap) (e : Entry) : (h.set a e).cells b = h.cells b :=
  if_neg hb

@[simp] theorem Heap.set_next (h : Heap) (a : Nat) (e : Entry) : (h.set a e).next = h.next := rfl

/-- `Rc::new(RefCell::new(e))` -/
def Heap.alloc (h : Heap) (e : Entry) : Heap × Nat :=
  ({ h.set h.next e with next := h.next + 1 }, h.next)

def findOrCreateChild (h : Heap) (a : Nat) (name : Bytes) : Heap × Nat :=
  match (h.cells a).children.lookup name with
  | some c => (h, c)
  | none =>
    let (h, c) := h.alloc default
    (h.set a { h.cells a with children := SortedMap.insert name c (h.cells a).children }, c)

def traversePath (h : Heap) (a : Nat) : List Bytes → Heap × Nat
  | [] => (h, a)
  | component :: path =>
    let (h, c) := findOrCreateChild h a component
    traversePath h c path

/-! ## Paths -/

def slash : UInt8 := 47

/-- One component of a path, after the components that are left of it. -/
def cleanComponent (ret : List Bytes) (component : Bytes) : Option (List Bytes) :=
  if component = [] ∨ component = [46] then some ret
  else if component = [46, 46] then
    if ret = [] then none else some ret.dropLast
  else some (ret ++ [component])

def cleanPath (str : Bytes) : Option (List Bytes) := (str.splitOn slash).foldlM cleanComponent []

/-- `.wh.` -/
def whiteout : Bytes := [46, 119, 104, 46]

/-- `.wh..wh..opq` -/
def opaqueMarker : Bytes := [46, 119, 104, 46, 46, 119, 104, 46, 46, 111, 112, 113]

/-! ## Reading the entries -/

/-- What `append_index` knows while it reads the archive. -/
structure State where
  heap : Heap
  root : Nat
  specialLink : List Bytes

def initial : State :=
  { heap := { cells := fun a => if a = 0 then { mode := S_IFDIR ||| 0o555 } else default, next := 1 }
    root := 0
    specialLink := [] }

/-- What `read_all_entries` makes of an entry: nothing, a hard link, or an entry of the tree, for a
symlink possibly with a name that is not in the header. -/
inductive Read where
  | skip
  | hardlink (linkName : Bytes)
  | entry (special : Option Bytes) (e : Entry)

def TarEntry.entry (f : TarEntry) (mode size offset : Nat) : Entry :=
  { size := size
    offset := offset
    mode := mode
    mtime := (f.mtime.getD 0).toNat
    owner := (f.uid.getD 0).toNat % 2 ^ 32
    group := (f.gid.getD 0).toNat % 2 ^ 32 }

def TarEntry.device (f : TarEntry) (mode : Nat) : Read :=
  match f.deviceMajor, f.deviceMinor with
  | some major, some minor => .entry none (f.entry mode 0 (minor.toNat ||| major.toNat <<< 32))
  | _, _ => .skip

def TarEntry.read (f : TarEntry) : Read :=
  match f.mode with
  | none => .skip
  | some m =>
    let mode := m.toNat % 2 ^ 16 &&& 0x1ff
    match f.type with
    | .regular => .entry none (f.entry (mode ||| S_IFREG) f.size.toNat f.rawFilePosition.toNat)
    | .directory => .entry none (f.entry (mode ||| S_IFDIR) 0 0)
    | .fifo => .entry none (f.entry (mode ||| S_IFIFO) 0 0)
    | .char => f.device (mode ||| S_IFCHR)
    | .block => f.device (mode ||| S_IFBLK)
    | .symlink =>
      match f.linkName with
      | none => .skip
      | some name =>
        if f.headerLinkName.getD [] ≠ name then .entry (some name) (f.entry (mode ||| S_IFLNK) name.length 0)
        else .entry none (f.entry (mode ||| S_IFLNK) name.length (f.rawHeaderPosition.toNat + 157))
    | .link =>
      match f.linkName with
      | none => .skip
      | some name => .hardlink name
    | .other => .skip

variable (s : State)

/-- Make the entry at the path a char device (0, 0) without children. -/
def State.whiteOut (path : List Bytes) : State :=
  let (h, a) := traversePath s.heap s.root path
  let cur := h.cells a
  { s with
    heap := h.set a
      { cur with children := [], mode := cur.mode &&& 0o7777 ||| S_IFCHR, size := 0, offset := 0 } }

def State.setOpaque (path : List Bytes) : State :=
  let (h, a) := traversePath s.heap s.root path
  { s with heap := h.set a { h.cells a with isOpaque := true } }

def State.replace (path : List Bytes) (e : Entry) : State :=
  let (h, a) := traversePath s.heap s.root path
  { s with heap := h.set a { e with children := [] } }

/-- The first callback. -/
def State.putEntry (name : Bytes) (e : Entry) : State :=
  match cleanPath name with
  | none => s
  | some path =>
    match path.getLast? with
    | none => s.replace path e
    | some n =>
      if n = opaqueMarker then s.setOpaque path.dropLast
      else if whiteout.isPrefixOf n then s.whiteOut (path.dropLast ++ [n.drop 4])
      else s.replace path e

/-- The second callback, from where the linked file has been found. -/
def State.putLink (name : Bytes) (existing : Nat) : State :=
  match cleanPath name with
  | none => s
  | some path =>
    match path.getLast? with
    | none => { s with root := existing }
    | some n =>
      let (h, a) := traversePath s.heap s.root path.dropLast
      { s with heap := h.set a { h.cells a with children := SortedMap.insert n existing (h.cells a).children } }

def State.hardlink (name linkName : Bytes) : State :=
  match cleanPath linkName with
  | none => s
  | some path =>
    let (h, existing) := traversePath s.heap s.root path
    if (h.cells existing).isType S_IFREG then { s with heap := h }.putLink name existing
    else { s with heap := h }

/-- One round of `read_all_entries`. -/
def State.next (f : TarEntry) : State :=
  match f.read with
  | .skip => s
  | .hardlink linkName => s.hardlink f.path linkName
  | .entry special e => { s with specialLink := s.specialLink ++ special.toList }.putEntry f.path e

end Kata.TarIndex
