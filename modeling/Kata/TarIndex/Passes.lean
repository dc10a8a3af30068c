import Kata.TarIndex.Sound

/-!
# Kata.TarIndex.Passes

The five traversals, each as a fold over the order of the visits, in closed form:

* `numbered_spec`: entries are numbered in the order of their first visits.
* `placed_spec`: a directory gets a stretch of the table of directory entries at every visit, and keeps the last one.
* `inodes_spec`, `bodies_spec`, `names_spec`: what the last three traversals write.
-/

namespace Kata.TarIndex

open Lib

/-- The entries in the order of their first visits. -/
def firstVisits (xs : List Nat) : List Nat := xs.eraseDups

/-- The names and children of the directories, in the order in which they are written. -/
def Heap.rows (h : Heap) (xs : List Nat) : List (Bytes × Nat) :=
  (xs.filter fun a => (h.cells a).isType S_IFDIR).flatMap fun a => (h.cells a).children

section FirstVisits

variable {ys : List Nat} {a b : Nat}

theorem mem_firstVisits : b ∈ firstVisits ys ↔ b ∈ ys := List.mem_eraseDups

theorem firstVisits_concat_of_mem (h : a ∈ ys) : firstVisits (ys ++ [a]) = firstVisits ys := by
  have hrest : [a].removeAll ys = [] := by simp [List.removeAll, h]
  unfold firstVisits
  rw [List.eraseDups_append, hrest]
  exact List.append_nil _

theorem firstVisits_concat_of_not_mem (h : a ∉ ys) : firstVisits (ys ++ [a]) = firstVisits ys ++ [a] := by
  have hrest : [a].removeAll ys = [a] := by simp [List.removeAll, h]
  unfold firstVisits
  rw [List.eraseDups_append, hrest, List.eraseDups_cons]
  rfl

theorem nodup_firstVisits (ys : List Nat) : (firstVisits ys).Nodup := by
  induction ys using List.reverseRecOn with
  | nil => exact List.nodup_nil
  | append_singleton ys a ih =>
    by_cases h : a ∈ ys
    · rw [firstVisits_concat_of_mem h]
      exact ih
    · rw [firstVisits_concat_of_not_mem h, ← List.concat_eq_append]
      exact ih.concat (mt mem_firstVisits.mp h)

end FirstVisits

section Rows

variable {h h' : Heap} {ys : List Nat} {a : Nat}

theorem rows_concat_of_dir (ha : (h.cells a).isType S_IFDIR = true) :
    h.rows (ys ++ [a]) = h.rows ys ++ (h.cells a).children := by
  unfold Heap.rows
  rw [List.filter_append, List.flatMap_append, List.filter_singleton, ha, cond_true, List.flatMap_singleton]

theorem rows_concat_of_not_dir (ha : (h.cells a).isType S_IFDIR = false) : h.rows (ys ++ [a]) = h.rows ys := by
  unfold Heap.rows
  rw [List.filter_append, List.flatMap_append, List.filter_singleton, ha]
  exact List.append_nil _

theorem rows_congr (hmode : ∀ a, (h'.cells a).mode = (h.cells a).mode) (hs : SameChildren h h') :
    h'.rows ys = h.rows ys := by
  have hcells : (fun a => (h'.cells a).children) = fun a => (h.cells a).children := funext hs
  unfold Heap.rows Entry.isType
  simp only [hmode, hcells]

end Rows

/-! ## Numbers -/

theorem Heap.set_self (h : Heap) (a : Nat) : h.set a (h.cells a) = h := by
  unfold Heap.set
  congr 1
  funext b
  split
  · next hb => rw [hb]
  · rfl

structure Numbered (h : Heap) (ys : List Nat) (r : Heap × Nat) : Prop where
  count : r.2 = (firstVisits ys).length
  cells : ∀ a, r.1.cells a = { h.cells a with ino := if a ∈ ys then (firstVisits ys).idxOf a + 1 else 0 }

variable {h : Heap} {ys : List Nat} {r : Heap × Nat}

theorem Numbered.visit (hr : Numbered h ys r) (a : Nat) : Numbered h (ys ++ [a]) (visited assignIno r a) := by
  have hino : (r.1.cells a).ino = if a ∈ ys then (firstVisits ys).idxOf a + 1 else 0 := by rw [hr.cells]
  unfold visited visitStep assignIno
  dsimp only
  by_cases ha : a ∈ ys
  · rw [if_pos ha] at hino
    rw [if_neg (by omega), Heap.set_self]
    refine ⟨?_, fun b => ?_⟩
    · rw [firstVisits_concat_of_mem ha]
      exact hr.count
    · have hmem : b ∈ ys ++ [a] ↔ b ∈ ys := by
        rw [List.mem_append, List.mem_singleton]
        exact ⟨fun h => h.elim id (· ▸ ha), .inl⟩
      rw [firstVisits_concat_of_mem ha, if_congr hmem rfl rfl]
      exact hr.cells b
  · rw [if_neg ha] at hino
    rw [if_pos hino]
    have hnew : a ∉ firstVisits ys := mt mem_firstVisits.mp ha
    refine ⟨?_, fun b => ?_⟩
    · rw [firstVisits_concat_of_not_mem ha, List.length_append, hr.count]
      rfl
    · dsimp only
      rw [firstVisits_concat_of_not_mem ha]
      by_cases hb : b = a
      · subst hb
        rw [Heap.set_cells_self, if_pos (List.mem_append_right _ (List.mem_singleton_self b)),
          List.idxOf_append_of_notMem hnew, hr.cells, hr.count]
        simp
      · have hmem : b ∈ ys ++ [a] ↔ b ∈ ys := by
          rw [List.mem_append, List.mem_singleton]
          exact ⟨fun h => h.elim id fun h => absurd h hb, .inl⟩
        rw [Heap.set_cells_of_ne hb, if_congr hmem rfl rfl, hr.cells]
        by_cases hys : b ∈ ys
        · rw [if_pos hys, if_pos hys, List.idxOf_append_of_mem (mem_firstVisits.mpr hys)]
        · rw [if_neg hys, if_neg hys]

theorem numbered_spec {s : State} (hino : ∀ a, (s.heap.cells a).ino = 0) (xs : List Nat) :
    Numbered s.heap xs (s.numbered xs) := by
  refine foldl_induct (P := Numbered s.heap) ⟨rfl, fun a => ?_⟩ (fun ys a r hr => hr.visit a) xs
  rw [if_neg List.not_mem_nil, ← hino a]

/-! ## Places of the directories -/

/-- The stretches of the table of directory entries that begins at `start`. -/
structure Placed (h : Heap) (start : Nat) (ys : List Nat) (r : Heap × Nat) : Prop where
  offset : r.2 = start + sizeOfDirEntry * (h.rows ys).length
  other : ∀ a, (h.cells a).isType S_IFDIR = false → r.1.cells a = h.cells a
  unseen : ∀ a, a ∉ ys → r.1.cells a = h.cells a
  directory : ∀ a ∈ ys, (h.cells a).isType S_IFDIR = true → ∃ pre post,
    h.rows ys = pre ++ (h.cells a).children ++ post ∧
    r.1.cells a = { h.cells a with offset := start + sizeOfDirEntry * pre.length
                                   size := sizeOfDirEntry * (h.cells a).children.length }

variable {start : Nat}

theorem Placed.same (hr : Placed h start ys r) (a : Nat) :
    ∃ offset size, r.1.cells a = { h.cells a with offset := offset, size := size } := by
  by_cases ha : a ∈ ys
  · cases hdir : (h.cells a).isType S_IFDIR with
    | false => exact ⟨_, _, hr.other a hdir⟩
    | true =>
      obtain ⟨pre, post, -, hcells⟩ := hr.directory a ha hdir
      exact ⟨_, _, hcells⟩
  · exact ⟨_, _, hr.unseen a ha⟩

theorem visited_placeDirectory {a offset size : Nat}
    (hcell : r.1.cells a = { h.cells a with offset := offset, size := size }) :
    visited placeDirectory r a =
      if (h.cells a).isType S_IFDIR then
        (r.1.set a { h.cells a with offset := r.2, size := sizeOfDirEntry * (h.cells a).children.length },
          r.2 + sizeOfDirEntry * (h.cells a).children.length)
      else r := by
  have htype : (r.1.cells a).isType S_IFDIR = (h.cells a).isType S_IFDIR := by rw [hcell]; rfl
  unfold visited visitStep placeDirectory
  dsimp only
  rw [htype]
  cases (h.cells a).isType S_IFDIR with
  | false =>
    rw [if_neg Bool.false_ne_true, if_neg Bool.false_ne_true, Heap.set_self]
  | true =>
    rw [if_pos rfl, if_pos rfl, hcell]

theorem Placed.visit (hr : Placed h start ys r) (a : Nat) :
    Placed h start (ys ++ [a]) (visited placeDirectory r a) := by
  obtain ⟨offset, size, hcell⟩ := hr.same a
  rw [visited_placeDirectory hcell]
  cases hdir : (h.cells a).isType S_IFDIR with
  | false =>
    rw [if_neg Bool.false_ne_true]
    refine ⟨?_, hr.other, fun b hb => ?_, fun b hb hbdir => ?_⟩
    · rw [rows_concat_of_not_dir hdir]
      exact hr.offset
    · exact hr.unseen b fun h => hb (List.mem_append_left _ h)
    · rw [rows_concat_of_not_dir hdir]
      refine hr.directory b ?_ hbdir
      rcases List.mem_append.mp hb with hb | hb
      · exact hb
      · rw [List.mem_singleton.mp hb, hdir] at hbdir
        cases hbdir
  | true =>
    rw [if_pos rfl]
    refine ⟨?_, fun b hb => ?_, fun b hb => ?_, fun b hb hbdir => ?_⟩
    · rw [rows_concat_of_dir hdir, List.length_append, Nat.mul_add, hr.offset]
      exact Nat.add_assoc _ _ _
    · have hne : b ≠ a := by
        intro heq
        rw [heq, hdir] at hb
        cases hb
      rw [Heap.set_cells_of_ne hne]
      exact hr.other b hb
    · rw [List.mem_append, List.mem_singleton, not_or] at hb
      rw [Heap.set_cells_of_ne hb.2]
      exact hr.unseen b hb.1
    · rw [rows_concat_of_dir hdir]
      by_cases hne : b = a
      · -- The last visit counts.
        subst hne
        refine ⟨h.rows ys, [], (List.append_nil _).symm, ?_⟩
        rw [Heap.set_cells_self, hr.offset]
      · rw [List.mem_append, List.mem_singleton, or_iff_left hne] at hb
        obtain ⟨pre, post, hrows, hbcells⟩ := hr.directory b hb hbdir
        refine ⟨pre, post ++ (h.cells a).children, ?_, ?_⟩
        · rw [hrows]
          simp only [List.append_assoc]
        · rw [Heap.set_cells_of_ne hne]
          exact hbcells

theorem placed_spec (s : State) (xs : List Nat) (contents : Bytes) :
    Placed (s.numbered xs).1 (contents.length + sizeOfInode * (s.numbered xs).2) xs (s.placed xs contents) := by
  refine foldl_induct (P := Placed (s.numbered xs).1 (contents.length + sizeOfInode * (s.numbered xs).2)) ?_
    (fun ys a r hr => hr.visit a) xs
  exact ⟨rfl, fun _ _ => rfl, fun _ _ => rfl, fun a ha => nomatch ha⟩

/-! ## The inode table -/

def Entry.record (e : Entry) (symlinkOffset : Nat) :
    Inode := e.inode (if e.isSpecial then symlinkOffset else e.offset)

/-- The inode table, with the offset of the next special symlink name. -/
def Heap.records (h : Heap) : Nat → List Nat → List Inode
  | _, [] => []
  | symlinkOffset, a :: as =>
    (h.cells a).record symlinkOffset :: h.records (symlinkOffset + (h.cells a).weight) as

def Heap.weights (h : Heap) (as : List Nat) : Nat := (as.map fun a => (h.cells a).weight).sum

theorem records_concat (h : Heap) (symlinkOffset : Nat) (as : List Nat) (a : Nat) :
    h.records symlinkOffset (as ++ [a])
      = h.records symlinkOffset as ++ [(h.cells a).record (symlinkOffset + h.weights as)] := by
  induction as generalizing symlinkOffset with
  | nil => rfl
  | cons b as ih =>
    rw [List.cons_append, Heap.records, ih, Heap.records, List.cons_append, Nat.add_assoc]
    rfl

theorem records_getElem? (h : Heap) (symlinkOffset : Nat) {as : List Nat} {i a : Nat} (hi : as[i]? = some a) :
    (h.records symlinkOffset as)[i]? = some ((h.cells a).record (symlinkOffset + h.weights (as.take i))) := by
  induction as generalizing symlinkOffset i with
  | nil => cases hi
  | cons b as ih =>
    cases i with
    | zero =>
      cases hi
      rfl
    | succ i =>
      rw [Heap.records, List.getElem?_cons_succ, ih _ hi, Nat.add_assoc]
      rfl

theorem length_records (h : Heap) (symlinkOffset : Nat) (as : List Nat) :
    (h.records symlinkOffset as).length = as.length := by
  induction as generalizing symlinkOffset with
  | nil => rfl
  | cons a as ih => rw [Heap.records, List.length_cons, ih, List.length_cons]

theorem weights_concat (h : Heap) (as : List Nat) (a : Nat) :
    h.weights (as ++ [a]) = h.weights as + (h.cells a).weight := by
  unfold Heap.weights
  rw [List.map_append, List.sum_append, List.map_singleton, List.sum_singleton]

structure Emitted (h : Heap) (start : Nat) (ys : List Nat) (r : Heap × Nat × Bytes) : Prop where
  cells : ∀ a, r.1.cells a = { h.cells a with emitted := decide (a ∈ ys) }
  offset : r.2.1 = start + h.weights (firstVisits ys)
  bytes : r.2.2 = (h.records start (firstVisits ys)).flatMap Inode.asBytes

variable {a : Nat}

/-- The entry is written with the offset of the next name if it is special, and the next name comes
after its own. -/
theorem emitInode_of_new (st : Nat × Bytes) (hnew : (h.cells a).emitted = false) :
    emitInode h a st
      = ({ h.cells a with emitted := true }, st.1 + (h.cells a).weight,
        st.2 ++ ((h.cells a).record st.1).asBytes) := by
  unfold emitInode Entry.weight Entry.record
  dsimp only
  rw [hnew, if_neg Bool.false_ne_true]
  by_cases hsp : (h.cells a).isSpecial = true
  · rw [if_pos hsp, if_pos hsp, if_pos hsp]
  · rw [if_neg hsp, if_neg hsp, if_neg hsp]
    rfl

theorem Emitted.visit {r : Heap × Nat × Bytes} (hr : Emitted h start ys r)
    (a : Nat) : Emitted h start (ys ++ [a]) (visited emitInode r a) := by
  have hemitted : (r.1.cells a).emitted = decide (a ∈ ys) := by rw [hr.cells]
  unfold visited visitStep
  by_cases ha : a ∈ ys
  · have hold : emitInode r.1 a r.2 = (r.1.cells a, r.2) := by
      unfold emitInode
      dsimp only
      rw [hemitted, if_pos (decide_eq_true ha)]
    rw [hold]
    dsimp only
    rw [Heap.set_self]
    refine ⟨fun b => ?_, ?_, ?_⟩
    · have hmem : b ∈ ys ++ [a] ↔ b ∈ ys := by
        rw [List.mem_append, List.mem_singleton]
        exact ⟨fun h => h.elim id (· ▸ ha), .inl⟩
      rw [decide_eq_decide.mpr hmem]
      exact hr.cells b
    · rw [firstVisits_concat_of_mem ha]
      exact hr.offset
    · rw [firstVisits_concat_of_mem ha]
      exact hr.bytes
  · rw [decide_eq_false ha] at hemitted
    have hcell : (r.1.cells a).weight = (h.cells a).weight ∧ ∀ o, (r.1.cells a).record o = (h.cells a).record o := by
      rw [hr.cells]
      exact ⟨rfl, fun _ => rfl⟩
    rw [emitInode_of_new r.2 hemitted]
    dsimp only
    refine ⟨fun b => ?_, ?_, ?_⟩
    · by_cases hb : b = a
      · subst hb
        rw [Heap.set_cells_self, hr.cells, decide_eq_true (List.mem_append_right _ (List.mem_singleton_self b))]
      · have hmem : b ∈ ys ++ [a] ↔ b ∈ ys := by
          rw [List.mem_append, List.mem_singleton]
          exact ⟨fun h => h.elim id fun h => absurd h hb, .inl⟩
        rw [Heap.set_cells_of_ne hb, decide_eq_decide.mpr hmem]
        exact hr.cells b
    · rw [firstVisits_concat_of_not_mem ha, weights_concat, hr.offset, hcell.1]
      exact Nat.add_assoc _ _ _
    · rw [firstVisits_concat_of_not_mem ha, records_concat, List.flatMap_append, List.flatMap_singleton, hr.bytes,
        hcell.2, hr.offset]

theorem inodes_spec {s : State} {xs : List Nat} {contents : Bytes}
    (hnew : ∀ a, ((s.placed xs contents).1.cells a).emitted = false) :
    Emitted (s.placed xs contents).1 (s.placed xs contents).2 xs (s.inodes xs contents) := by
  refine foldl_induct (P := Emitted (s.placed xs contents).1 (s.placed xs contents).2) ⟨fun a => ?_, rfl, rfl⟩
    (fun ys a r hr => hr.visit a) xs
  rw [decide_eq_false List.not_mem_nil, ← hnew a]

/-! ## The directory entries and the names -/

def Heap.dirent (h : Heap) (nameOffset : Nat) (child : Bytes × Nat) : DirEntry :=
  { ino := (h.cells child.2).ino
    nameOffset := nameOffset
    nameLen := child.1.length
    etype := direntType (h.cells child.2).mode }

def Heap.dirents (h : Heap) : Nat → List (Bytes × Nat) → List DirEntry
  | _, [] => []
  | nameOffset, child :: cs => h.dirent nameOffset child :: h.dirents (nameOffset + child.1.length) cs

theorem length_dirents (h : Heap) (nameOffset : Nat) (cs : List (Bytes × Nat)) :
    (h.dirents nameOffset cs).length = cs.length := by
  induction cs generalizing nameOffset with
  | nil => rfl
  | cons c cs ih => rw [Heap.dirents, List.length_cons, ih, List.length_cons]

/-- The names one behind the other. -/
def nameBytes (cs : List (Bytes × Nat)) : Bytes := cs.flatMap Prod.fst

theorem nameBytes_cons (c : Bytes × Nat) (cs : List (Bytes × Nat)) : nameBytes (c :: cs) = c.1 ++ nameBytes cs := rfl

theorem dirents_getElem? (h : Heap) (nameOffset : Nat) {cs : List (Bytes × Nat)} {k : Nat} {c : Bytes × Nat}
    (hk : cs[k]? = some c) :
    (h.dirents nameOffset cs)[k]? = some (h.dirent (nameOffset + (nameBytes (cs.take k)).length) c) := by
  induction cs generalizing nameOffset k with
  | nil => cases hk
  | cons b cs ih =>
    cases k with
    | zero =>
      cases hk
      rfl
    | succ k =>
      rw [Heap.dirents, List.getElem?_cons_succ, ih _ hk, List.take_succ_cons, nameBytes_cons, List.length_append,
        Nat.add_assoc]

theorem foldl_emitDirEntry (h : Heap) (cs : List (Bytes × Nat)) (st : Nat × Bytes) :
    cs.foldl (emitDirEntry h) st
      = (st.1 + (nameBytes cs).length, st.2 ++ (h.dirents st.1 cs).flatMap DirEntry.asBytes) := by
  induction cs generalizing st with
  | nil => exact Prod.ext rfl (List.append_nil _).symm
  | cons c cs ih =>
    rw [List.foldl_cons, ih, nameBytes_cons, List.length_append, Heap.dirents, List.flatMap_cons]
    refine Prod.ext ?_ ?_
    · exact Nat.add_assoc _ _ _
    · exact List.append_assoc _ _ _

theorem foldl_emitName (cs : List (Bytes × Nat)) (st : Nat × Bytes) :
    cs.foldl emitName st = (st.1 + (nameBytes cs).length, st.2 ++ nameBytes cs) := by
  induction cs generalizing st with
  | nil => exact Prod.ext rfl (List.append_nil _).symm
  | cons c cs ih =>
    rw [List.foldl_cons, ih, nameBytes_cons, List.length_append]
    refine Prod.ext ?_ ?_
    · exact Nat.add_assoc _ _ _
    · exact List.append_assoc _ _ _

/-- A traversal that changes no entry and goes through the children of the directories. -/
theorem foldl_rows {σ : Type} {visitor : Heap → Nat → σ → Entry × σ} {emit : Heap → σ → Bytes × Nat → σ}
    (hv : ∀ h a st, visitor h a st =
      (h.cells a, if (h.cells a).isType S_IFDIR then (h.cells a).children.foldl (emit h) st else st))
    (h : Heap) (st : σ) (xs : List Nat) :
    xs.foldl (visited visitor) (h, st) = (h, (h.rows xs).foldl (emit h) st) := by
  refine foldl_induct (P := fun ys r => r = (h, (h.rows ys).foldl (emit h) st)) rfl (fun ys a r hr => ?_) xs
  rw [hr]
  unfold visited visitStep
  rw [hv]
  dsimp only
  rw [Heap.set_self]
  cases hdir : (h.cells a).isType S_IFDIR with
  | false =>
    rw [if_neg Bool.false_ne_true, rows_concat_of_not_dir hdir]
  | true =>
    rw [if_pos rfl, rows_concat_of_dir hdir, List.foldl_append]

theorem emitBody_eq (h : Heap) (a : Nat) (st : Nat × Bytes) :
    emitBody h a st = (h.cells a, if (h.cells a).isType S_IFDIR then (h.cells a).children.foldl
      (emitDirEntry h) st else st) := by
  unfold emitBody
  dsimp only
  split <;> rfl

theorem emitNames_eq (h : Heap) (a : Nat) (st : Nat × Bytes) :
    emitNames h a st = (h.cells a, if (h.cells a).isType S_IFDIR then (h.cells a).children.foldl
      emitName st else st) := by
  unfold emitNames
  dsimp only
  split <;> rfl

theorem bodies_spec (s : State) (xs : List Nat) (contents : Bytes) :
    s.bodies xs contents = ((s.inodes xs contents).1,
      (s.inodes xs contents).2.1 + (nameBytes ((s.inodes xs contents).1.rows xs)).length,
      ((s.inodes xs contents).1.dirents (s.inodes xs contents).2.1 ((s.inodes xs contents).1.rows xs)).flatMap
        DirEntry.asBytes) := by
  unfold State.bodies
  rw [foldl_rows emitBody_eq, foldl_emitDirEntry]
  rfl

theorem names_spec (s : State) (xs : List Nat) (contents : Bytes) :
    (s.names xs contents).2 =
      ((s.bodies xs contents).2.1 + s.specialLink.flatten.length + (nameBytes
        ((s.bodies xs contents).1.rows xs)).length,
        nameBytes ((s.bodies xs contents).1.rows xs)) := by
  unfold State.names
  rw [foldl_rows emitNames_eq, foldl_emitName]
  rfl

end Kata.TarIndex
