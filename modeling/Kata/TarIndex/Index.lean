import Kata.Lib.Graph
import Kata.Lib.LittleEndian
import Kata.Lib.Outcome
import Kata.TarIndex.Tree

/-!
# Kata.TarIndex.Index

How `append_index` writes the index behind the archive: five traversals of the tree, one to number
the entries, one to place the directories, and one each to write the inode table, the directory
entries and the names (`tarindex/src/lib.rs`, with the records of `tarfs-defs/src/lib.rs`).

Offsets are positions in the file that is written, so that they only overflow in a file that is too
long to be written; `State.index` fails for such a file. A traversal that does not end is an error
of its own.
-/

namespace Kata.TarIndex

open Lib

inductive Error where
  | diverged
  | io
deriving DecidableEq, Repr

/-! ## Records -/

structure Inode where
  mode : Nat
  flags : Nat
  hmtime : Nat
  owner : Nat
  group : Nat
  lmtime : Nat
  size : Nat
  offset : Nat
deriving DecidableEq, Repr

def Inode.asBytes (i : Inode) : Bytes :=
  leBytes 2 i.mode ++ leBytes 1 i.flags ++ leBytes 1 i.hmtime ++ leBytes 4 i.owner ++ leBytes 4 i.group ++
    leBytes 4 i.lmtime ++ leBytes 8 i.size ++ leBytes 8 i.offset

structure DirEntry where
  ino : Nat
  nameOffset : Nat
  nameLen : Nat
  etype : Nat
deriving DecidableEq, Repr

def DirEntry.asBytes (d : DirEntry) : Bytes :=
  leBytes 8 d.ino ++ leBytes 8 d.nameOffset ++ leBytes 8 d.nameLen ++ leBytes 1 d.etype ++ List.replicate 7 0

structure SuperBlock where
  inodeTableOffset : Nat
  inodeCount : Nat
deriving DecidableEq, Repr

def SuperBlock.asBytes (sb : SuperBlock) : Bytes := leBytes 8 sb.inodeTableOffset ++ leBytes 8 sb.inodeCount

def sizeOfInode : Nat := 32

def sizeOfDirEntry : Nat := 32

/-- `DT_SOCK`, `DT_LNK`, .. for the type of a mode, `DT_UNKNOWN` for no type. -/
def direntType (mode : Nat) : Nat :=
  let type := mode &&& S_IFMT
  if type = S_IFSOCK then 12
  else if type = S_IFLNK then 10
  else if type = S_IFREG then 8
  else if type = S_IFBLK then 6
  else if type = S_IFDIR then 4
  else if type = S_IFCHR then 2
  else if type = S_IFIFO then 1
  else 0

/-! ## Traversals -/

section Visit

variable {σ : Type}

/-- Visit an entry: it may be changed, and its children are those it has afterwards. -/
def visitStep (visitor : Heap → Nat → σ → Entry × σ) (hs : Heap × σ) (a : Nat) : (Heap × σ) × List Nat :=
  let (e, s) := visitor hs.1 a hs.2
  ((hs.1.set a e, s), e.children.map Prod.snd)

def visitBreadthFirstMut (fuel : Nat) (root : Nat) (visitor : Heap → Nat → σ → Entry × σ) (h : Heap) (s : σ) :
    Except Error (Heap × σ) :=
  match breadthFirst (visitStep visitor) fuel [root] (h, s) with
  | some hs => .ok hs
  | none => .error .diverged

end Visit

def assignIno (h : Heap) (a : Nat) (inoCount : Nat) : Entry × Nat :=
  let e := h.cells a
  if e.ino = 0 then ({ e with ino := inoCount + 1 }, inoCount + 1) else (e, inoCount)

/-- The visitor of `init_direntry_offset`. -/
def placeDirectory (h : Heap) (a : Nat) (offset : Nat) : Entry × Nat :=
  let e := h.cells a
  if e.isType S_IFDIR then
    ({ e with offset := offset, size := sizeOfDirEntry * e.children.length },
      offset + sizeOfDirEntry * e.children.length)
  else (e, offset)

/-- A symlink whose name is not in the header has no offset yet. -/
def Entry.isSpecial (e : Entry) : Bool := e.isType S_IFLNK && e.offset = 0

def Entry.inode (e : Entry) (inodeOffset : Nat) : Inode :=
  { mode := e.mode
    flags := if e.isOpaque then 1 else 0
    hmtime := (e.mtime >>> 32) &&& 0xf
    owner := e.owner
    group := e.group
    lmtime := e.mtime % 2 ^ 32
    size := e.size
    offset := inodeOffset }

/-- The state is the offset of the next special symlink name, and what has been written. -/
def emitInode (h : Heap) (a : Nat) (st : Nat × Bytes) : Entry × Nat × Bytes :=
  let e := h.cells a
  if e.emitted then (e, st)
  else if e.isSpecial then ({ e with emitted := true }, st.1 + e.size, st.2 ++ (e.inode st.1).asBytes)
  else ({ e with emitted := true }, st.1, st.2 ++ (e.inode e.offset).asBytes)

/-- One directory entry; the state is the offset of its name, and what has been written. -/
def emitDirEntry (h : Heap) (st : Nat × Bytes) (child : Bytes × Nat) : Nat × Bytes :=
  let d : DirEntry :=
    { ino := (h.cells child.2).ino
      nameOffset := st.1
      nameLen := child.1.length
      etype := direntType (h.cells child.2).mode }
  (st.1 + child.1.length, st.2 ++ d.asBytes)

/-- The visitor of `write_direntry_bodies`. -/
def emitBody (h : Heap) (a : Nat) (st : Nat × Bytes) : Entry × Nat × Bytes :=
  let e := h.cells a
  if e.isType S_IFDIR then (e, e.children.foldl (emitDirEntry h) st) else (e, st)

def emitName (st : Nat × Bytes) (child : Bytes × Nat) : Nat × Bytes := (st.1 + child.1.length, st.2 ++ child.1)

def emitNames (h : Heap) (a : Nat) (st : Nat × Bytes) : Entry × Nat × Bytes :=
  let e := h.cells a
  if e.isType S_IFDIR then (e, e.children.foldl emitName st) else (e, st)

/-! ## The file -/

def alignment : Nat := 4096

def align (v : Nat) : Nat := (v + (alignment - 1)) / alignment * alignment

/-- Write at a position, with zeros between the end of the file and there. -/
def writeAt (file : Bytes) (pos : Nat) (bytes : Bytes) : Bytes :=
  file.take pos ++ List.replicate (pos - file.length) 0 ++ bytes ++ file.drop (pos + bytes.length)

/-- The size of the largest file. -/
def maxFileSize : Nat := 2 ^ 63 - 1

/-- `append_index` after `read_all_entries`. -/
def State.index (fuel : Nat) (s : State) (contents : Bytes) : Except Error Bytes := do
  let contentsSize := contents.length
  let (h, inoCount) ← visitBreadthFirstMut fuel s.root assignIno s.heap 0
  let (h, stringTableOffset) ←
    visitBreadthFirstMut fuel s.root placeDirectory h (contentsSize + sizeOfInode * inoCount)
  let (h, symlinkOffset, inodes) ← visitBreadthFirstMut fuel s.root emitInode h (stringTableOffset, [])
  let (h, endOffset, bodies) ← visitBreadthFirstMut fuel s.root emitBody h (symlinkOffset, [])
  let endOffset := endOffset + s.specialLink.flatten.length
  let (_, endOffset, names) ← visitBreadthFirstMut fuel s.root emitNames h (endOffset, [])
  let endOffset := align endOffset
  let file := contents ++ inodes ++ bodies ++ s.specialLink.flatten ++ names
  let sb : SuperBlock := { inodeTableOffset := contentsSize, inodeCount := inoCount }
  let file := writeAt file (endOffset + alignment - 512) sb.asBytes
  let file := writeAt file (endOffset + (alignment - 1)) [0]
  if file.length ≤ maxFileSize then .ok file else .error .io

/-- An archive: its bytes, the entries that the `tar` crate finds, and whether it gives up with an
error after them. -/
structure Archive where
  contents : Bytes
  entries : List TarEntry
  broken : Bool

def Archive.state (ar : Archive) : State := ar.entries.foldl State.next initial

def appendIndex (fuel : Nat) (ar : Archive) : Except Error Bytes :=
  if ar.broken then .error .io else ar.state.index fuel ar.contents

/-! ## Visitors that keep the children -/

section Children

variable {σ : Type}

def Heap.kids (h : Heap) (a : Nat) : List Nat := (h.cells a).children.map Prod.snd

def SameChildren (h h' : Heap) : Prop := ∀ a, (h'.cells a).children = (h.cells a).children

/-- What a visitor does to the state of a traversal. -/
def visited (visitor : Heap → Nat → σ → Entry × σ) (hs : Heap × σ) (a : Nat) : Heap × σ := (visitStep visitor hs a).1

theorem SameChildren.set {h h' : Heap} (hs : SameChildren h h') {a : Nat} {e : Entry}
    (he : e.children = (h'.cells a).children) : SameChildren h (h'.set a e) := by
  intro b
  by_cases hb : b = a
  · subst hb
    rw [Heap.set_cells_self, he, hs]
  · rw [Heap.set_cells_of_ne hb, hs]

theorem SameChildren.foldl {visitor : Heap → Nat → σ → Entry × σ}
    (hv : ∀ h a s, (visitor h a s).1.children = (h.cells a).children) {h : Heap} (xs : List Nat) {hs : Heap × σ}
    (h₀ : SameChildren h hs.1) : SameChildren h (xs.foldl (visited visitor) hs).1 := by
  induction xs generalizing hs with
  | nil => exact h₀
  | cons a xs ih => exact ih (h₀.set (hv hs.1 a hs.2))

/-- A traversal is a fold over the order in which the entries are visited. -/
theorem visitBreadthFirstMut_eq {visitor : Heap → Nat → σ → Entry × σ}
    (hv : ∀ h a s, (visitor h a s).1.children = (h.cells a).children) (fuel : Nat) (root : Nat) {h h' : Heap}
    (hh : SameChildren h h') (s : σ) :
    visitBreadthFirstMut fuel root visitor h' s =
      match order h.kids fuel [root] with
      | some xs => .ok (xs.foldl (visited visitor) (h', s))
      | none => .error .diverged := by
  have hstep : ∀ (hs : Heap × σ) (a : Nat), SameChildren h hs.1 →
      (visitStep visitor hs a).2 = h.kids a ∧ SameChildren h (visitStep visitor hs a).1.1 := by
    intro hs a hI
    refine ⟨?_, hI.set (hv hs.1 a hs.2)⟩
    show (visitor hs.1 a hs.2).1.children.map Prod.snd = _
    rw [hv, hI a]
    rfl
  unfold visitBreadthFirstMut
  rw [breadthFirst_eq_foldl (I := fun hs => SameChildren h hs.1) hstep fuel [root] (h', s) hh]
  cases order h.kids fuel [root] with
  | none | some xs => rfl

theorem assignIno_children (h : Heap) (a : Nat) (n : Nat) : (assignIno h a n).1.children = (h.cells a).children := by
  simp only [assignIno]
  split <;> rfl

theorem placeDirectory_children (h : Heap) (a : Nat) (n : Nat) :
    (placeDirectory h a n).1.children = (h.cells a).children := by
  simp only [placeDirectory]
  split <;> rfl

theorem emitInode_children (h : Heap) (a : Nat) (st : Nat × Bytes) :
    (emitInode h a st).1.children = (h.cells a).children := by
  simp only [emitInode]
  split
  · rfl
  · split <;> rfl

theorem emitBody_children (h : Heap) (a : Nat) (st : Nat × Bytes) :
    (emitBody h a st).1.children = (h.cells a).children := by
  simp only [emitBody]
  split <;> rfl

theorem emitNames_children (h : Heap) (a : Nat) (st : Nat × Bytes) :
    (emitNames h a st).1.children = (h.cells a).children := by
  simp only [emitNames]
  split <;> rfl

end Children

/-! ## The traversals in one order -/

variable (s : State) (xs : List Nat) (contents : Bytes)

/-- The tree and the number of inodes, the tree and the offset of the string table, and so on, after
each traversal. -/
def State.numbered : Heap × Nat := xs.foldl (visited assignIno) (s.heap, 0)

def State.placed : Heap × Nat :=
  xs.foldl (visited placeDirectory) ((s.numbered xs).1, contents.length + sizeOfInode * (s.numbered xs).2)

def State.inodes : Heap × Nat × Bytes :=
  xs.foldl (visited emitInode) ((s.placed xs contents).1, (s.placed xs contents).2, [])

def State.bodies : Heap × Nat × Bytes :=
  xs.foldl (visited emitBody) ((s.inodes xs contents).1, (s.inodes xs contents).2.1, [])

def State.names : Heap × Nat × Bytes :=
  xs.foldl (visited emitNames)
    ((s.bodies xs contents).1, (s.bodies xs contents).2.1 + s.specialLink.flatten.length, [])

/-- What is written before the padding. -/
def State.tables : Bytes :=
  contents ++ (s.inodes xs contents).2.2 ++ (s.bodies xs contents).2.2 ++ s.specialLink.flatten ++
    (s.names xs contents).2.2

def State.file : Bytes :=
  let endOffset := align (s.names xs contents).2.1
  let sb : SuperBlock := { inodeTableOffset := contents.length, inodeCount := (s.numbered xs).2 }
  writeAt (writeAt (s.tables xs contents) (endOffset + alignment - 512) sb.asBytes) (endOffset + (alignment - 1)) [0]

theorem SameChildren.refl (h : Heap) : SameChildren h h := fun _ => rfl

/-- Indexing is five times the same order of visits. -/
theorem index_eq (fuel : Nat) (s : State) (contents : Bytes) :
    s.index fuel contents =
      match order s.heap.kids fuel [s.root] with
      | none => .error .diverged
      | some xs =>
        if (s.file xs contents).length ≤ maxFileSize then .ok (s.file xs contents) else .error .io := by
  have hnumbered := visitBreadthFirstMut_eq assignIno_children fuel s.root (SameChildren.refl s.heap) 0
  unfold State.index
  cases hord : order s.heap.kids fuel [s.root] with
  | none =>
    rw [hord] at hnumbered
    rw [hnumbered]
    rfl
  | some xs =>
    rw [hord] at hnumbered
    have hs₁ : SameChildren s.heap (s.numbered xs).1 := .foldl assignIno_children xs (.refl s.heap)
    have hs₂ : SameChildren s.heap (s.placed xs contents).1 := .foldl placeDirectory_children xs hs₁
    have hs₃ : SameChildren s.heap (s.inodes xs contents).1 := .foldl emitInode_children xs hs₂
    have hs₄ : SameChildren s.heap (s.bodies xs contents).1 := .foldl emitBody_children xs hs₃
    have hplaced := visitBreadthFirstMut_eq placeDirectory_children fuel s.root hs₁
      (contents.length + sizeOfInode * (s.numbered xs).2)
    have hinodes := visitBreadthFirstMut_eq emitInode_children fuel s.root hs₂ ((s.placed xs contents).2, [])
    have hbodies := visitBreadthFirstMut_eq emitBody_children fuel s.root hs₃ ((s.inodes xs contents).2.1, [])
    have hnames := visitBreadthFirstMut_eq emitNames_children fuel s.root hs₄
      ((s.bodies xs contents).2.1 + s.specialLink.flatten.length, [])
    rw [hord] at hplaced hinodes hbodies hnames
    rw [hnumbered, ok_bind]
    show (visitBreadthFirstMut fuel s.root placeDirectory (s.numbered xs).1
      (contents.length + sizeOfInode * (s.numbered xs).2) >>= _) = _
    rw [hplaced, ok_bind]
    show (visitBreadthFirstMut fuel s.root emitInode (s.placed xs contents).1
      ((s.placed xs contents).2, []) >>= _) = _
    rw [hinodes, ok_bind]
    show (visitBreadthFirstMut fuel s.root emitBody (s.inodes xs contents).1
      ((s.inodes xs contents).2.1, []) >>= _) = _
    rw [hbodies, ok_bind]
    show (visitBreadthFirstMut fuel s.root emitNames (s.bodies xs contents).1
      ((s.bodies xs contents).2.1 + s.specialLink.flatten.length, []) >>= _) = _
    rw [hnames, ok_bind]
    rfl

end Kata.TarIndex
