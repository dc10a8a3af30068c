import Kata.Lib.Runs
import Kata.TarIndex.Walk

/-!
# Kata.TarIndex.Cycles

Does indexing end? The traversals have no set of visited entries, so they end exactly if no entry
lies below itself. All entries of an archive keep the tree without cycles, except for a hard link
that is put below the file it links to: a regular file can have entries below it, and nothing looks
where the link goes.

`next_acyclic_iff` is about one entry, `index_ends` about the traversals of a tree without cycles,
and `indexing_ends_iff` about all archives. For the archive of `linkBelowTarget_diverges`,
`append_index` does not return.
-/

namespace Kata.TarIndex

open Lib Relation

/-! ## Reachability -/

/-- The last entry on a path that is there. -/
def deepest (h : Heap) (a : Nat) : List Bytes → Nat
  | [] => a
  | name :: path =>
    match (h.cells a).children.lookup name with
    | some c => deepest h c path
    | none => a

section Reach

variable {h : Heap} {a : Nat} {name : Bytes}

/-- Nothing leads to an address that has not been given out. -/
theorem Heap.Wf.not_reach_next (hw : h.Wf) {x : Nat} : ¬ TransGen h.Edge x h.next := by
  intro hx
  obtain ⟨b, -, hb⟩ := TransGen.tail'_iff.mp hx
  exact absurd (hw.edges _ _ hb) (Nat.lt_irrefl _)

/-- A new entry is reached through the entry it was added to. -/
theorem reach_addChild (hw : h.Wf) (hl : (h.cells a).children.lookup name = none) {x : Nat} (hx : x < h.next) :
    ReflTransGen (h.addChild a name).Edge x h.next ↔ ReflTransGen h.Edge x a := by
  constructor
  · intro hreach
    rcases reflTransGen_iff_eq_or_transGen.mp hreach with heq | hreach
    · omega
    · rcases transGen_insert (fun _ _ => Heap.link_edge) hreach with hold | ⟨hto, -⟩
      · exact absurd hold hw.not_reach_next
      · exact hto
  · intro hreach
    have hold : ReflTransGen (h.addChild a name).Edge x a := ReflTransGen.mono
      (fun _ _ => Heap.link_keeps hl) x a hreach
    exact hold.tail Heap.link_edge_new

theorem deepest_of_empty (he : h.cells a = default) (path : List Bytes) : deepest h a path = a := by
  cases path with
  | nil => rfl
  | cons name path =>
    unfold deepest
    rw [he]
    rfl

/-- What leads to the end of a path leads to the place where the path leaves the tree. -/
theorem reach_traversePath (path : List Bytes) (hw : h.Wf) (ha : a < h.next) {x : Nat} (hx : x < h.next) :
    ReflTransGen (traversePath h a path).1.Edge x (traversePath h a path).2 ↔
      ReflTransGen h.Edge x (deepest h a path) := by
  induction path generalizing h a with
  | nil => exact Iff.rfl
  | cons name path ih =>
    unfold traversePath deepest
    cases hl : (h.cells a).children.lookup name with
    | some c =>
      rw [findOrCreateChild_of_some hl]
      exact ih hw (lookup_lt hw hl) hx
    | none =>
      rw [findOrCreateChild_of_none hw hl]
      have hw' : (h.addChild a name).Wf := hw.addChild ha
      have hrest := ih hw' (Nat.lt_succ_self h.next) (Nat.lt_succ_of_lt hx)
      rw [deepest_of_empty (Heap.addChild_cells_next hw ha)] at hrest
      exact hrest.trans (reach_addChild hw hl hx)

theorem addChild_acyclic (hw : h.Wf) (ha : a < h.next) (hl : (h.cells a).children.lookup name = none)
    (hc : Acyclic h.Edge) : Acyclic (h.addChild a name).Edge := by
  refine (acyclic_insert_iff (fun _ _ => Heap.link_edge) Heap.link_edge_new
    (fun _ _ _ => Heap.link_keeps hl) hc).mpr ?_
  -- Nothing leaves the new entry.
  intro hback
  rcases reflTransGen_iff_eq_or_transGen.mp hback with heq | hback
  · omega
  · obtain ⟨c, hc, -⟩ := TransGen.head'_iff.mp hback
    exact absurd (hw.source_lt hc) (Nat.lt_irrefl _)

theorem traversePath_acyclic (path : List Bytes) (hw : h.Wf) (ha : a < h.next) (hc : Acyclic h.Edge) :
    Acyclic (traversePath h a path).1.Edge :=
  traversePath_induct (P := fun h => Acyclic h.Edge) (fun _ _ _ => addChild_acyclic) path hw ha hc

theorem update_acyclic {path : List Bytes} {edit : Entry → Entry} (hw : h.Wf) (ha : a < h.next) (hc : Acyclic h.Edge)
    (hedit : ∀ cur, ∀ p ∈ (edit cur).children, p ∈ cur.children) : Acyclic (h.update a path edit).Edge := by
  refine (traversePath_acyclic path hw ha hc).mono fun b c hbc => ?_
  unfold Heap.update Heap.Edge Heap.kids at hbc
  by_cases hb : b = (traversePath h a path).2
  · subst hb
    rw [Heap.set_cells_self] at hbc
    obtain ⟨p, hp, rfl⟩ := List.mem_map.mp hbc
    exact List.mem_map_of_mem (hedit _ p hp)
  · rw [Heap.set_cells_of_ne hb] at hbc
    exact hbc

theorem update_link_acyclic_iff {path : List Bytes} {n : Bytes} {t : Nat} (hw : h.Wf) (ha : a < h.next)
    (hc : Acyclic h.Edge) (ht : t < h.next) :
    Acyclic (h.update a path (Entry.link n t)).Edge ↔ ¬ ReflTransGen h.Edge t (deepest h a path) := by
  rw [← reach_traversePath path hw ha ht]
  exact acyclic_insert_iff (fun _ _ => Heap.link_edge) Heap.link_edge_new (fun _ _ hne => Heap.set_edge_of_ne hne)
    (traversePath_acyclic path hw ha hc)

end Reach

/-! ## One entry of the archive -/

/-- If the entry links a file, it does not put the link below that file: the file does not lead to
the last entry that is there on the way to the link. -/
def State.LinkOutside (s : State) (f : TarEntry) : Prop :=
  ∀ path n t, Links s f path n t → ¬ ReflTransGen s.heap.Edge t (deepest s.heap s.root path)

theorem next_acyclic_iff {s : State} (hs : s.Wf) (hc : Acyclic s.heap.Edge) (f : TarEntry) :
    Acyclic (s.next f).heap.Edge ↔ s.LinkOutside f := by
  by_cases hlinks : ∃ path n t, Links s f path n t
  · obtain ⟨path, n, t, hl⟩ := hlinks
    rw [hl.next_eq]
    refine (update_link_acyclic_iff hs.heap hs.root hc (hl.lt hs)).trans ?_
    constructor
    · intro hout path' n' t' hl'
      obtain ⟨rfl, rfl, rfl⟩ := hl.unique hl'
      exact hout
    · intro hout
      exact hout path n t hl
  · refine iff_of_true ?_ fun path n t hl => absurd ⟨path, n, t, hl⟩ hlinks
    have hchanges := next_changes hs f
    generalize s.next f = s' at hchanges
    cases hchanges with
    | same hno => exact hc
    | added path hno => exact traversePath_acyclic path hs.heap hs.root hc
    | ignored special e hread hpath => exact hc
    | replaced special e path hread hpath hp =>
      show Acyclic (s.heap.update s.root path fun _ => e.childless).Edge
      exact update_acyclic hs.heap hs.root hc fun _ _ hp => nomatch hp
    | marked special e path mark hread hm hnot => exact update_acyclic hs.heap hs.root hc hm.children_subset
    | rooted path t hno hwalk hreg => exact hc
    | linked path n t hl => exact absurd ⟨path, n, t, hl⟩ hlinks

/-! ## The traversals -/

/-- In a tree without cycles the traversals end. -/
theorem order_ends {h : Heap} (hw : h.Wf) (hc : Acyclic h.Edge) (root : Nat) :
    ∃ fuel xs, order h.kids fuel [root] = some xs := by
  have hfinite : ∀ a, h.kids a ≠ [] → a ∈ Finset.range h.next := by
    intro a ha
    obtain ⟨b, hb⟩ := List.exists_mem_of_ne_nil _ ha
    exact Finset.mem_range.mpr (hw.source_lt hb)
  obtain ⟨w, hweight⟩ := exists_weight (wellFounded_of_acyclic hc _ hfinite)
  refine ⟨w root, Option.isSome_iff_exists.mp (order_isSome hweight _ _ ?_)⟩
  rw [List.map_singleton, List.sum_singleton]

/-- There is no cycle, and the index is written or writing it fails. -/
structure State.Ends (s : State) : Prop where
  acyclic : Acyclic s.heap.Edge
  returns : ∃ fuel, ∀ contents, s.index fuel contents ≠ .error .diverged

theorem index_ends {s : State} (hs : s.Wf) (hc : Acyclic s.heap.Edge) : s.Ends := by
  obtain ⟨fuel, xs, hord⟩ := order_ends hs.heap hc s.root
  refine ⟨hc, fuel, fun contents => ?_⟩
  rw [index_eq, hord]
  dsimp only
  split <;> exact nofun

theorem initial_acyclic : Acyclic initial.heap.Edge := by
  intro a ha
  obtain ⟨b, hab, -⟩ := TransGen.head'_iff.mp ha
  unfold Heap.Edge Heap.kids initial at hab
  dsimp only at hab
  split at hab
  · exact nomatch hab
  · exact nomatch hab

/-- After every entry of an archive there is no cycle and indexing returns, exactly if no entry puts
a link below the file it links to. -/
theorem indexing_ends_iff (entries : List TarEntry) :
    Always State.next State.Ends initial entries ↔ Throughout State.next State.LinkOutside initial entries := by
  refine always_iff (I := State.Wf) (fun s f hs => next_wf hs f) (fun s f hs hends => ?_) initial_wf
    (index_ends initial_wf initial_acyclic) entries
  rw [← next_acyclic_iff hs hends.acyclic f]
  exact ⟨State.Ends.acyclic, index_ends (next_wf hs f)⟩

/-- The regular file `a`, and a hard link `a/b` to it. -/
def linkBelowTarget : List TarEntry :=
  let file : TarEntry :=
    { path := [97], type := .regular, mode := some 0o644, size := 0, rawFilePosition := 512, rawHeaderPosition := 0,
      linkName := none, headerLinkName := none, deviceMajor := none, deviceMinor := none, mtime := some 0,
      uid := some 0, gid := some 0 }
  [file, { file with path := [97, 47, 98], type := .link, linkName := some [97], headerLinkName := some [97] }]

theorem linkBelowTarget_diverges :
    ¬ Acyclic (linkBelowTarget.foldl State.next initial).heap.Edge ∧
      ∀ contents fuel, appendIndex fuel { contents, entries := linkBelowTarget, broken := false } =
        .error .diverged := by
  have hroot : (linkBelowTarget.foldl State.next initial).root = 0 := by decide
  have hkids : (linkBelowTarget.foldl State.next initial).heap.kids 0 = [1] := by decide
  have hself : (linkBelowTarget.foldl State.next initial).heap.kids 1 = [1] := by decide
  have hloop : (linkBelowTarget.foldl State.next initial).heap.Edge 1 1 := by
    unfold Heap.Edge
    rw [hself]
    exact List.mem_singleton_self 1
  refine ⟨fun h => h 1 (.single hloop), fun contents fuel => ?_⟩
  -- Every round of the traversal leaves 0 or 1 in the queue.
  have hnone : order (linkBelowTarget.foldl State.next initial).heap.kids fuel [0] = none := by
    refine order_eq_none (S := fun a => a = 0 ∨ a = 1) (fun a ha => ⟨1, ?_, .inr rfl⟩) fuel
      ⟨0, List.mem_singleton_self 0, .inl rfl⟩
    rcases ha with rfl | rfl
    · rw [hkids]
      exact List.mem_singleton_self 1
    · rw [hself]
      exact List.mem_singleton_self 1
  show State.index fuel (linkBelowTarget.foldl State.next initial) contents = _
  rw [index_eq, hroot, hnone]

end Kata.TarIndex
