import Kata.TarIndex.Index

/-!
# Kata.TarIndex.Walk

What `traverse_path` does to the heap: it follows the children that are there, and from where the
path leaves the tree it adds empty entries one below the other (`Heap.addChild`).
`traversePath_induct` proves a fact about the heap after it from the case of one added child, and
`next_changes` says everything that one entry of the archive can do.
-/

namespace Kata.TarIndex

open Lib

/-! ## Well-formed heaps -/

def Heap.Edge (h : Heap) (a b : Nat) : Prop := b ∈ h.kids a

/-- Addresses that have not been given out hold nothing, and no entry refers to them. -/
structure Heap.Wf (h : Heap) : Prop where
  fresh : ∀ a, h.next ≤ a → h.cells a = default
  edges : ∀ a b, h.Edge a b → b < h.next

variable {h : Heap}

theorem Heap.Wf.source_lt (hw : h.Wf) {a b : Nat} (hab : h.Edge a b) : a < h.next := by
  refine Nat.lt_of_not_le fun hle => ?_
  unfold Heap.Edge Heap.kids at hab
  rw [hw.fresh a hle] at hab
  exact nomatch hab

/-- One more name for an entry. -/
def Entry.link (name : Bytes) (t : Nat) (e : Entry) :
    Entry := { e with children := SortedMap.insert name t e.children }

/-- A new empty entry below `a`. -/
def Heap.addChild (h : Heap) (a : Nat) (name : Bytes) : Heap :=
  { h.set a ((h.cells a).link name h.next) with next := h.next + 1 }

section Link

variable {h : Heap} {a b c t : Nat} {name : Bytes}

theorem Heap.link_edge (hbc : (h.set a ((h.cells a).link name t)).Edge b c) : h.Edge b c ∨ (b = a ∧ c = t) := by
  unfold Heap.Edge Heap.kids at hbc
  by_cases hb : b = a
  · subst hb
    rw [Heap.set_cells_self] at hbc
    obtain ⟨p, hp, rfl⟩ := List.mem_map.mp hbc
    rcases SortedMap.mem_insert hp with rfl | hp
    · exact .inr ⟨rfl, rfl⟩
    · exact .inl (List.mem_map_of_mem hp)
  · rw [Heap.set_cells_of_ne hb] at hbc
    exact .inl hbc

theorem Heap.link_edge_new : (h.set a ((h.cells a).link name t)).Edge a t := by
  unfold Heap.Edge Heap.kids
  rw [Heap.set_cells_self]
  exact List.mem_map_of_mem (SortedMap.mem_of_lookup (SortedMap.lookup_insert_self name t _))

theorem Heap.set_edge_of_ne {e : Entry} (hb : b ≠ a) (hbc : h.Edge b c) : (h.set a e).Edge b c := by
  unfold Heap.Edge Heap.kids
  rw [Heap.set_cells_of_ne hb]
  exact hbc

/-- A new name takes no name away. -/
theorem Heap.link_keeps (hl : (h.cells a).children.lookup name = none) (hbc : h.Edge b c) :
    (h.set a ((h.cells a).link name t)).Edge b c := by
  by_cases hb : b = a
  · subst hb
    unfold Heap.Edge Heap.kids
    rw [Heap.set_cells_self]
    obtain ⟨p, hp, rfl⟩ := List.mem_map.mp hbc
    exact List.mem_map_of_mem (SortedMap.mem_insert_of_lookup_none hl hp)
  · exact Heap.set_edge_of_ne hb hbc

end Link

section AddChild

variable {h : Heap} {a b : Nat} {name : Bytes}

@[simp] theorem Heap.addChild_next : (h.addChild a name).next = h.next + 1 := rfl

theorem Heap.addChild_cells_self : (h.addChild a name).cells a = (h.cells a).link name h.next :=
  Heap.set_cells_self h a _

theorem Heap.addChild_cells_of_ne (hb : b ≠ a) :
    (h.addChild a name).cells b = h.cells b := Heap.set_cells_of_ne hb h _

theorem Heap.addChild_cells_next (hw : h.Wf) (ha : a < h.next) : (h.addChild a name).cells h.next = default := by
  rw [Heap.addChild_cells_of_ne (by omega)]
  exact hw.fresh _ (Nat.le_refl _)

theorem findOrCreateChild_of_some {c : Nat} (hl : (h.cells a).children.lookup name = some c) :
    findOrCreateChild h a name = (h, c) := by
  unfold findOrCreateChild
  rw [hl]

theorem findOrCreateChild_of_none (hw : h.Wf) (hl : (h.cells a).children.lookup name = none) :
    findOrCreateChild h a name = (h.addChild a name, h.next) := by
  -- The new cell is empty, as it was before it was given out.
  have hcells : (h.set h.next default).cells = h.cells := by
    funext b
    by_cases hb : b = h.next
    · subst hb
      rw [Heap.set_cells_self, hw.fresh _ (Nat.le_refl _)]
    · exact Heap.set_cells_of_ne hb h _
  unfold findOrCreateChild Heap.alloc
  rw [hl]
  dsimp only
  rw [hcells]
  rfl

theorem Heap.Wf.addChild (hw : h.Wf) (ha : a < h.next) : (h.addChild a name).Wf := by
  constructor
  · intro b hb
    rw [Heap.addChild_next] at hb
    rw [Heap.addChild_cells_of_ne (by omega)]
    exact hw.fresh b (by omega)
  · intro b c hbc
    rw [Heap.addChild_next]
    rcases Heap.link_edge hbc with hbc | ⟨-, rfl⟩
    · exact Nat.lt_succ_of_lt (hw.edges b c hbc)
    · exact Nat.lt_succ_self _

end AddChild

/-! ## Paths -/

section Traverse

variable {h : Heap} {a : Nat}

theorem lookup_lt (hw : h.Wf) {name : Bytes} {c : Nat}
    (hl : (h.cells a).children.lookup name = some c) : c < h.next :=
  hw.edges a c (List.mem_map_of_mem (SortedMap.mem_of_lookup hl))

/-- The traversal as a rule: a fact that an added child keeps is kept. -/
theorem traversePath_induct {P : Heap → Prop}
    (hadd : ∀ (h : Heap) (a : Nat) (name : Bytes), h.Wf → a < h.next → (h.cells a).children.lookup name = none → P h →
      P (h.addChild a name)) (path : List Bytes) (hw : h.Wf) (ha : a < h.next) (hP : P h) :
    P (traversePath h a path).1 := by
  induction path generalizing h a with
  | nil => exact hP
  | cons name path ih =>
    unfold traversePath
    cases hl : (h.cells a).children.lookup name with
    | some c =>
      rw [findOrCreateChild_of_some hl]
      exact ih hw (lookup_lt hw hl) hP
    | none =>
      rw [findOrCreateChild_of_none hw hl]
      exact ih (hw.addChild ha) (Nat.lt_succ_self _) (hadd h a name hw ha hl hP)

theorem traversePath_wf (path : List Bytes) (hw : h.Wf) (ha : a < h.next) : (traversePath h a path).1.Wf :=
  traversePath_induct (fun _ _ _ hw ha _ _ => hw.addChild ha) path hw ha hw

theorem traversePath_next (path : List Bytes) (hw : h.Wf) (ha : a < h.next) :
    h.next ≤ (traversePath h a path).1.next :=
  traversePath_induct (P := fun h' => h.next ≤ h'.next) (fun _ _ _ _ _ _ hle => Nat.le_succ_of_le hle) path hw ha
    (Nat.le_refl _)

theorem traversePath_lt (path : List Bytes) (hw : h.Wf) (ha : a < h.next) :
    (traversePath h a path).2 < (traversePath h a path).1.next := by
  induction path generalizing h a with
  | nil => exact ha
  | cons name path ih =>
    unfold traversePath
    cases hl : (h.cells a).children.lookup name with
    | some c =>
      rw [findOrCreateChild_of_some hl]
      exact ih hw (lookup_lt hw hl)
    | none =>
      rw [findOrCreateChild_of_none hw hl]
      exact ih (hw.addChild ha) (Nat.lt_succ_self _)

/-- The entry at a path, if there is one. -/
def walk (h : Heap) (a : Nat) : List Bytes → Option Nat
  | [] => some a
  | name :: path => ((h.cells a).children.lookup name).bind fun c => walk h c path

theorem traversePath_of_walk {path : List Bytes} {t : Nat} (hwalk : walk h a path = some t) :
    traversePath h a path = (h, t) := by
  induction path generalizing a with
  | nil =>
    cases hwalk
    rfl
  | cons name path ih =>
    obtain ⟨c, hl, hwalk⟩ := Option.bind_eq_some_iff.mp hwalk
    unfold traversePath
    rw [findOrCreateChild_of_some hl]
    exact ih hwalk

/-- An entry that the traversal had to add is empty. -/
theorem traversePath_of_walk_none {path : List Bytes} (hw : h.Wf) (ha : a < h.next) (hwalk : walk h a path = none) :
    (traversePath h a path).1.cells (traversePath h a path).2 = default := by
  induction path generalizing h a with
  | nil => cases hwalk
  | cons name path ih =>
    unfold traversePath
    cases hl : (h.cells a).children.lookup name with
    | some c =>
      rw [findOrCreateChild_of_some hl]
      refine ih hw (lookup_lt hw hl) ?_
      rw [walk, hl] at hwalk
      exact hwalk
    | none =>
      rw [findOrCreateChild_of_none hw hl]
      have hempty : (h.addChild a name).cells h.next = default := Heap.addChild_cells_next hw ha
      cases path with
      | nil => exact hempty
      | cons name' path =>
        refine ih (hw.addChild ha) (Nat.lt_succ_self _) ?_
        rw [walk, hempty]
        rfl

end Traverse

/-! ## States -/

structure State.Wf (s : State) : Prop where
  heap : s.heap.Wf
  root : s.root < s.heap.next

theorem initial_wf : initial.Wf := by
  refine ⟨⟨fun a ha => ?_, fun a b hab => ?_⟩, Nat.zero_lt_one⟩
  · exact if_neg (Nat.ne_of_gt ha)
  · unfold Heap.Edge Heap.kids initial at hab
    dsimp only at hab
    split at hab
    · exact nomatch hab
    · exact nomatch hab

variable {a : Nat}

/-- An entry may lose children, and no entry is given out. -/
theorem Heap.Wf.set (hw : h.Wf) (ha : a < h.next) {e : Entry}
    (he : ∀ p ∈ e.children, p.2 < h.next) : (h.set a e).Wf := by
  constructor
  · intro b hb
    rw [Heap.set_next] at hb
    rw [Heap.set_cells_of_ne (by omega)]
    exact hw.fresh b hb
  · intro b c hbc
    unfold Heap.Edge Heap.kids at hbc
    by_cases hba : b = a
    · subst hba
      rw [Heap.set_cells_self] at hbc
      obtain ⟨p, hp, rfl⟩ := List.mem_map.mp hbc
      exact he p hp
    · rw [Heap.set_cells_of_ne hba] at hbc
      exact hw.edges b c hbc

/-- Go to a path and change the entry there. -/
def Heap.update (h : Heap) (root : Nat) (path : List Bytes) (edit : Entry → Entry) : Heap :=
  let (h, a) := traversePath h root path
  h.set a (edit (h.cells a))

/-- The entry as it replaces another one. -/
def Entry.childless (e : Entry) : Entry := { e with children := [] }

/-- The last component of the path does not begin as that of a whiteout. -/
def Plain (path : List Bytes) : Prop := ∀ n ∈ path.getLast?, whiteout.isPrefixOf n = false

instance (path : List Bytes) : Decidable (Plain path) :=
  inferInstanceAs (Decidable (∀ n ∈ path.getLast?, whiteout.isPrefixOf n = false))

/-- What a whiteout does to an entry. -/
inductive Mark : (Entry → Entry) → Prop where
  | setOpaque : Mark fun cur => { cur with isOpaque := true }
  | whiteOut : Mark fun cur =>
    { cur with children := [], mode := cur.mode &&& 0o7777 ||| S_IFCHR, size := 0, offset := 0 }

/-- The entry of the archive links the regular file `t` under the name `n` in the directory at
`path`. -/
structure Links (s : State) (f : TarEntry) (path : List Bytes) (n : Bytes) (t : Nat) : Prop where
  target : ∃ linkName linkPath, f.read = .hardlink linkName ∧ cleanPath linkName = some linkPath ∧
    walk s.heap s.root linkPath = some t
  regular : (s.heap.cells t).isType S_IFREG = true
  place : cleanPath f.path = some (path ++ [n])

def Read.IsEntry : Read → Prop
  | .entry _ _ => True
  | _ => False

/-- Everything that one entry of the archive can do. -/
inductive Changes (s : State) (f : TarEntry) : State → Prop where
  | same : ¬ f.read.IsEntry → Changes s f s
  | added (path : List Bytes) : ¬ f.read.IsEntry → Changes s f { s with heap := (traversePath s.heap s.root path).1 }
  | ignored (special : Option Bytes) (e : Entry) : f.read = .entry special e → cleanPath f.path = none →
      Changes s f { s with specialLink := s.specialLink ++ special.toList }
  | replaced (special : Option Bytes) (e : Entry) (path : List Bytes) : f.read = .entry special e →
      cleanPath f.path = some path → Plain path →
      Changes s f { s with heap := s.heap.update s.root path fun _ => e.childless
                           specialLink := s.specialLink ++ special.toList }
  | marked (special : Option Bytes) (e : Entry) (path : List Bytes) (mark : Entry → Entry) :
    f.read = .entry special e →
      Mark mark → (∀ path, cleanPath f.path = some path → ¬ Plain path) →
      Changes s f { s with heap := s.heap.update s.root path mark, specialLink := s.specialLink ++ special.toList }
  | rooted (path : List Bytes) (t : Nat) : ¬ f.read.IsEntry → walk s.heap s.root path = some t →
      (s.heap.cells t).isType S_IFREG = true → Changes s f { s with root := t }
  | linked (path : List Bytes) (n : Bytes) (t : Nat) : Links s f path n t →
      Changes s f { s with heap := s.heap.update s.root path (Entry.link n t) }

section Changes

variable {s : State} {f : TarEntry}

variable {path : List Bytes} {n : Bytes}

theorem plain_append : Plain (path ++ [n]) ↔ whiteout.isPrefixOf n = false := by
  unfold Plain
  rw [List.getLast?_concat]
  constructor
  · intro h
    exact h n rfl
  · intro h m hm
    cases hm
    exact h

theorem putEntry_of_plain (hpath : cleanPath f.path = some path) (hp : Plain path) (e : Entry) :
    s.putEntry f.path e = { s with heap := s.heap.update s.root path fun _ => e.childless } := by
  unfold State.putEntry
  rw [hpath]
  rcases List.eq_nil_or_concat' path with rfl | ⟨path, n, rfl⟩
  · rfl
  · have hn := plain_append.mp hp
    have hopq : n ≠ opaqueMarker := by
      intro h
      rw [h] at hn
      exact absurd hn (by decide)
    dsimp only
    rw [List.getLast?_concat]
    dsimp only
    rw [if_neg hopq, hn]
    rfl

theorem putEntry_changes {special : Option Bytes} {e : Entry} (hread : f.read = .entry special e) :
    Changes s f ({ s with specialLink := s.specialLink ++ special.toList }.putEntry f.path e) := by
  cases hpath : cleanPath f.path with
  | none =>
    unfold State.putEntry
    rw [hpath]
    exact .ignored special e hread hpath
  | some path =>
    by_cases hp : Plain path
    · rw [putEntry_of_plain hpath hp]
      exact .replaced special e path hread hpath hp
    · have hnot : ∀ path, cleanPath f.path = some path → ¬ Plain path := by
        intro path' hpath'
        rw [hpath] at hpath'
        cases hpath'
        exact hp
      rcases List.eq_nil_or_concat' path with rfl | ⟨path, n, rfl⟩
      · exact (hp nofun).elim
      · unfold State.putEntry
        rw [hpath]
        dsimp only
        rw [List.getLast?_concat, List.dropLast_concat]
        dsimp only
        by_cases hopq : n = opaqueMarker
        · rw [if_pos hopq]
          exact .marked special e path _ hread .setOpaque hnot
        · rw [if_neg hopq, if_pos (Bool.not_eq_false _ ▸ mt plain_append.mpr hp)]
          exact .marked special e _ _ hread .whiteOut hnot

theorem Links.next_eq {t : Nat} (h : Links s f path n t) :
    s.next f = { s with heap := s.heap.update s.root path (Entry.link n t) } := by
  obtain ⟨linkName, linkPath, hread, hlink, hwalk⟩ := h.target
  unfold State.next State.hardlink State.putLink
  rw [hread]
  dsimp only
  rw [hlink]
  dsimp only
  rw [traversePath_of_walk hwalk]
  dsimp only
  rw [if_pos h.regular, h.place]
  dsimp only
  rw [List.getLast?_concat, List.dropLast_concat]
  rfl

theorem Links.unique {path path' : List Bytes} {n n' : Bytes} {t t' : Nat} (h : Links s f path n t)
    (h' : Links s f path' n' t') : path = path' ∧ n = n' ∧ t = t' := by
  obtain ⟨linkName, linkPath, hread, hlink, hwalk⟩ := h.target
  obtain ⟨linkName', linkPath', hread', hlink', hwalk'⟩ := h'.target
  have hplace := h.place
  rw [h'.place, Option.some.injEq] at hplace
  obtain ⟨hpath, hn⟩ := List.append_inj' hplace rfl
  rw [hread] at hread'
  cases hread'
  rw [hlink] at hlink'
  cases hlink'
  rw [hwalk] at hwalk'
  cases hwalk'
  cases hn
  exact ⟨hpath.symm, rfl, rfl⟩

theorem hardlink_changes (hs : s.Wf) {linkName : Bytes} (hread : f.read = .hardlink linkName) :
    Changes s f (s.hardlink f.path linkName) := by
  have hno : ¬ f.read.IsEntry := by
    rw [hread]
    exact id
  cases hlink : cleanPath linkName with
  | none =>
    unfold State.hardlink
    rw [hlink]
    exact .same hno
  | some linkPath =>
    cases hwalk : walk s.heap s.root linkPath with
    | none =>
      -- The path of the target is added, with an entry that has no type.
      have hempty := traversePath_of_walk_none hs.heap hs.root hwalk
      unfold State.hardlink
      rw [hlink]
      dsimp only
      rw [hempty, if_neg (by decide)]
      exact .added linkPath hno
    | some t =>
      by_cases hreg : (s.heap.cells t).isType S_IFREG = true
      · cases hpath : cleanPath f.path with
        | none =>
          unfold State.hardlink State.putLink
          rw [hlink]
          dsimp only
          rw [traversePath_of_walk hwalk]
          dsimp only
          rw [if_pos hreg, hpath]
          exact .same hno
        | some path =>
          rcases List.eq_nil_or_concat' path with rfl | ⟨path, n, rfl⟩
          · unfold State.hardlink State.putLink
            rw [hlink]
            dsimp only
            rw [traversePath_of_walk hwalk]
            dsimp only
            rw [if_pos hreg, hpath]
            exact .rooted linkPath t hno hwalk hreg
          · have hl : Links s f path n t := ⟨⟨linkName, linkPath, hread, hlink, hwalk⟩, hreg, hpath⟩
            have hnext := hl.next_eq
            unfold State.next at hnext
            rw [hread] at hnext
            dsimp only at hnext
            rw [hnext]
            exact .linked path n t hl
      · unfold State.hardlink
        rw [hlink]
        dsimp only
        rw [traversePath_of_walk hwalk]
        dsimp only
        rw [if_neg hreg]
        exact .same hno

theorem next_changes (hs : s.Wf) (f : TarEntry) : Changes s f (s.next f) := by
  unfold State.next
  cases hread : f.read with
  | skip =>
    refine .same ?_
    rw [hread]
    exact id
  | hardlink linkName => exact hardlink_changes hs hread
  | entry special e => exact putEntry_changes hread

end Changes

/-! ## Well-formed states -/

variable {path : List Bytes}

theorem Heap.Wf.update (hw : h.Wf) {root : Nat} (hroot : root < h.next) {edit : Entry → Entry}
    (hedit : ∀ cur, ∀ p ∈ (edit cur).children, p ∈ cur.children ∨ p.2 < h.next) : (h.update root path edit).Wf := by
  have hwf := traversePath_wf path hw hroot
  refine hwf.set (traversePath_lt path hw hroot) fun p hp => ?_
  rcases hedit _ p hp with hp | hp
  · exact hwf.edges _ p.2 (List.mem_map_of_mem hp)
  · exact Nat.lt_of_lt_of_le hp (traversePath_next path hw hroot)

theorem Mark.children_subset {mark : Entry → Entry} (h : Mark mark) (cur : Entry) :
    ∀ p ∈ (mark cur).children, p ∈ cur.children := by
  cases h with
  | setOpaque => exact fun p hp => hp
  | whiteOut => exact nofun

theorem walk_lt (hw : h.Wf) {a t : Nat} (ha : a < h.next) (hwalk : walk h a path = some t) : t < h.next := by
  have hlt := traversePath_lt path hw ha
  rw [traversePath_of_walk hwalk] at hlt
  exact hlt

variable {s : State}

theorem Links.lt {f : TarEntry} {n : Bytes} {t : Nat} (hs : s.Wf) (h : Links s f path n t) : t < s.heap.next := by
  obtain ⟨_, _, _, _, hwalk⟩ := h.target
  exact walk_lt hs.heap hs.root hwalk

theorem Changes.wf {s s' : State} {f : TarEntry} (h : Changes s f s') (hs : s.Wf) : s'.Wf := by
  have hgrow : ∀ (path : List Bytes) (edit : Entry → Entry), s.root < (s.heap.update s.root path edit).next :=
    fun path _ => Nat.lt_of_lt_of_le hs.root (traversePath_next path hs.heap hs.root)
  cases h with
  | same hno => exact hs
  | added path hno =>
    exact ⟨traversePath_wf path hs.heap hs.root, Nat.lt_of_lt_of_le hs.root (traversePath_next path hs.heap hs.root)⟩
  | ignored special e hread hpath => exact ⟨hs.heap, hs.root⟩
  | replaced special e path hread hpath hp =>
    have hwf : (s.heap.update s.root path fun _ => e.childless).Wf := hs.heap.update hs.root fun _ _ hp => nomatch hp
    exact ⟨hwf, hgrow path _⟩
  | marked special e path mark hread hm hnot =>
    exact ⟨hs.heap.update hs.root fun cur p hp => .inl (hm.children_subset cur p hp), hgrow path _⟩
  | rooted path t hno hwalk hreg => exact ⟨hs.heap, walk_lt hs.heap hs.root hwalk⟩
  | linked path n t hl =>
    refine ⟨hs.heap.update hs.root fun cur p hp => ?_, hgrow path _⟩
    rcases SortedMap.mem_insert hp with rfl | hp
    · exact .inr (hl.lt hs)
    · exact .inl hp

theorem next_wf (hs : s.Wf) (f : TarEntry) : (s.next f).Wf := (next_changes hs f).wf hs

end Kata.TarIndex
