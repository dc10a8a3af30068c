import Kata.Lib.PathMap
import Kata.TarIndex.Sound

/-!
# Kata.TarIndex.Paths

The tree as a map from paths. As long as no entry is a hard link, every entry of the tree has one
path only (`Heap.Unshared`), and an entry of the archive does to the tree what `PathMap.put` does to
the map (`update_labelAt`): it replaces what is at its path, takes away what is below, and above it
makes entries without a type where there are none. `seen_state` is the result for a whole archive.
-/

namespace Kata.TarIndex

open Lib

/-! ## Walks -/

section Walk

variable {h : Heap} {root a b : Nat} {p q : List Bytes} {n : Bytes}

theorem walk_append (h : Heap) (a : Nat) (p q : List Bytes) :
    walk h a (p ++ q) = (walk h a p).bind fun c => walk h c q := by
  induction p generalizing a with
  | nil => rfl
  | cons n p ih =>
    rw [List.cons_append, walk, walk, Option.bind_assoc]
    congr 1
    funext c
    exact ih c

theorem walk_concat (h : Heap) (a : Nat) (p : List Bytes) (n : Bytes) :
    walk h a (p ++ [n]) = (walk h a p).bind fun c => (h.cells c).children.lookup n := by
  rw [walk_append]
  congr 1
  funext c
  rw [walk]
  cases (h.cells c).children.lookup n <;> rfl

theorem walk_prefix {c : Nat} (hwalk : walk h a q = some c) (hpq : p <+: q) : ∃ b, walk h a p = some b := by
  obtain ⟨r, rfl⟩ := hpq
  rw [walk_append] at hwalk
  obtain ⟨b, hb, -⟩ := Option.bind_eq_some_iff.mp hwalk
  exact ⟨b, hb⟩

/-- Every entry has one path. -/
def Heap.Unshared (h : Heap) (root : Nat) : Prop :=
  ∀ p q a, walk h root p = some a → walk h root q = some a → p = q

/-- A prefix of a longer path is a prefix of the path, or all of it. -/
theorem prefix_concat_iff : p <+: q ++ [n] ↔ p = q ++ [n] ∨ p <+: q := List.prefix_concat_iff

theorem walk_set_childless (hu : h.Unshared root) (hp : walk h root p = some b) {e : Entry} (he : e.children = [])
    (q : List Bytes) : walk (h.set b e) root q = if p <+: q ∧ p ≠ q then none else walk h root q := by
  induction q using List.reverseRecOn with
  | nil =>
    rw [if_neg]
    · rfl
    · rintro ⟨hpre, hne⟩
      exact hne (List.prefix_nil.mp hpre)
  | append_singleton q n ih =>
    rw [walk_concat, ih, walk_concat]
    by_cases hpq : p <+: q
    · have hlonger : p ≠ q ++ [n] := by
        intro heq
        have hle := hpq.length_le
        rw [heq, List.length_append] at hle
        exact absurd hle (Nat.not_succ_le_self _)
      rw [if_pos (show p <+: q ++ [n] ∧ p ≠ q ++ [n] from ⟨hpq.trans (List.prefix_append q [n]), hlonger⟩)]
      by_cases hne : p = q
      · subst hne
        rw [if_neg (fun h => h.2 rfl), hp]
        show ((h.set b e).cells b).children.lookup n = none
        rw [Heap.set_cells_self, he]
        rfl
      · rw [if_pos ⟨hpq, hne⟩]
        rfl
    · rw [if_neg (fun h => hpq h.1)]
      have hnot : ¬ (p <+: q ++ [n] ∧ p ≠ q ++ [n]) := by
        rintro ⟨hpre, hne⟩
        rcases prefix_concat_iff.mp hpre with heq | hpre
        · exact hne heq
        · exact hpq hpre
      rw [if_neg hnot]
      cases hq : walk h root q with
      | none => rfl
      | some c =>
        have hcb : c ≠ b := by
          rintro rfl
          exact hpq (hu p q c hp hq ▸ List.prefix_rfl)
        show ((h.set b e).cells c).children.lookup n = _
        rw [Heap.set_cells_of_ne hcb]
        rfl

theorem walk_addChild (hw : h.Wf) (hroot : root < h.next) (hu : h.Unshared root) (hp : walk h root p = some a)
    (hl : (h.cells a).children.lookup n = none) (q : List Bytes) :
    walk (h.addChild a n) root q = if q = p ++ [n] then some h.next else walk h root q := by
  have ha := walk_lt hw hroot hp
  have hnew : walk h root (p ++ [n]) = none := by
    rw [walk_concat, hp]
    exact hl
  induction q using List.reverseRecOn with
  | nil =>
    rw [if_neg (by simp)]
    rfl
  | append_singleton q m ih =>
    rw [walk_concat, ih, walk_concat]
    by_cases hq : q = p ++ [n]
    · subst hq
      have hlonger : p ++ [n] ++ [m] ≠ p ++ [n] := by simp
      rw [if_pos rfl, if_neg hlonger, hnew]
      show ((h.addChild a n).cells h.next).children.lookup m = none
      rw [Heap.addChild_cells_next hw ha]
      rfl
    · rw [if_neg hq]
      cases hwalk : walk h root q with
      | none =>
        have hne : q ++ [m] ≠ p ++ [n] := by
          intro heq
          rw [(List.append_inj' heq rfl).1, hp] at hwalk
          cases hwalk
        rw [if_neg hne]
        rfl
      | some c =>
        show ((h.addChild a n).cells c).children.lookup m = if _ then _ else (h.cells c).children.lookup m
        by_cases hca : c = a
        · subst hca
          have hqp := hu q p c hwalk hp
          subst hqp
          rw [Heap.addChild_cells_self]
          show (SortedMap.insert n h.next (h.cells c).children).lookup m = _
          by_cases hmn : m = n
          · subst hmn
            rw [if_pos rfl, SortedMap.lookup_insert_self]
          · have hne : q ++ [m] ≠ q ++ [n] := by
              intro heq
              exact hmn (List.singleton_inj.mp (List.append_inj' heq rfl).2)
            rw [if_neg hne, SortedMap.lookup_insert_of_ne hmn]
        · have hne : q ++ [m] ≠ p ++ [n] := by
            intro heq
            rw [(List.append_inj' heq rfl).1, hp, Option.some.injEq] at hwalk
            exact hca hwalk.symm
          rw [if_neg hne, Heap.addChild_cells_of_ne hca]

theorem Heap.Unshared.addChild (hw : h.Wf) (hroot : root < h.next) (hu : h.Unshared root)
    (hp : walk h root p = some a)
    (hl : (h.cells a).children.lookup n = none) : (h.addChild a n).Unshared root := by
  intro q r c hq hr
  rw [walk_addChild hw hroot hu hp hl] at hq hr
  by_cases hqp : q = p ++ [n]
  · by_cases hrp : r = p ++ [n]
    · rw [hqp, hrp]
    · rw [if_pos hqp, Option.some.injEq] at hq
      rw [if_neg hrp] at hr
      have hlt := walk_lt hw hroot hr
      omega
  · rw [if_neg hqp] at hq
    by_cases hrp : r = p ++ [n]
    · rw [if_pos hrp, Option.some.injEq] at hr
      have hlt := walk_lt hw hroot hq
      omega
    · rw [if_neg hrp] at hr
      exact hu q r c hq hr

theorem Heap.Unshared.set_childless (hu : h.Unshared root) (hp : walk h root p = some b) {e : Entry}
    (he : e.children = []) : (h.set b e).Unshared root := by
  intro q r c hq hr
  rw [walk_set_childless hu hp he] at hq hr
  split at hq
  · cases hq
  · split at hr
    · cases hr
    · exact hu q r c hq hr

end Walk

/-! ## What a path has -/

section LabelAt

variable {β : Type} {h : Heap} {root a : Nat} {p : List Bytes}

/-- What a path has, if `l` says what each entry has. -/
def Heap.labelAt (h : Heap) (root : Nat) (l : Nat → β) : PathMap Bytes β := fun q => (walk h root q).map l

/-- A traversal makes the entries of its path that are missing. -/
structure Traversed (h h' : Heap) (root : Nat) (path : List Bytes) (b : Nat) : Prop where
  unshared : h'.Unshared root
  walk : walk h' root path = some b
  labelAt : ∀ {β : Type} (l : Nat → β) (d : β), (∀ a, h.next ≤ a → l a = d) → ∀ q, h'.labelAt root l q =
    if q <+: path then some ((h.labelAt root l q).getD d) else h.labelAt root l q

theorem traversePath_traversed (path : List Bytes) (hw : h.Wf) (hroot : root < h.next) (hu : h.Unshared root)
    (hp : walk h root p = some a) :
    Traversed h (traversePath h a path).1 root (p ++ path) (traversePath h a path).2 := by
  induction path generalizing h a p with
  | nil =>
    rw [List.append_nil]
    refine ⟨hu, hp, fun l d _ q => ?_⟩
    by_cases hq : q <+: p
    · obtain ⟨b, hb⟩ := walk_prefix hp hq
      rw [if_pos hq]
      show h.labelAt root l q = _
      unfold Heap.labelAt
      rw [hb]
      rfl
    · rw [if_neg hq]
      rfl
  | cons n path ih =>
    have ha := walk_lt hw hroot hp
    unfold traversePath
    rw [List.append_cons]
    cases hl : (h.cells a).children.lookup n with
    | some c =>
      rw [findOrCreateChild_of_some hl]
      refine ih hw hroot hu ?_
      rw [walk_concat, hp]
      exact hl
    | none =>
      rw [findOrCreateChild_of_none hw hl]
      have hwalk := walk_addChild hw hroot hu hp hl
      have hroot' : root < (h.addChild a n).next := Nat.lt_succ_of_lt hroot
      have hpn : walk (h.addChild a n) root (p ++ [n]) = some h.next := by rw [hwalk, if_pos rfl]
      obtain ⟨hu', hwalk', hlabel⟩ := ih (hw.addChild ha) hroot' (hu.addChild hw hroot hp hl) hpn
      refine ⟨hu', hwalk', fun l d hd q => ?_⟩
      rw [hlabel l d fun b hb => hd b (Nat.le_of_succ_le hb)]
      have hnew : (h.addChild a n).labelAt root l q = if q = p ++ [n] then some d else h.labelAt root l q := by
        unfold Heap.labelAt
        rw [hwalk]
        by_cases hq : q = p ++ [n]
        · rw [if_pos hq, if_pos hq, Option.map_some, hd h.next (Nat.le_refl _)]
        · rw [if_neg hq, if_neg hq]
      rw [hnew]
      by_cases hq : q = p ++ [n]
      · have hpre : q <+: p ++ [n] ++ path := hq ▸ List.prefix_append _ _
        have hmissing : h.labelAt root l q = none := by
          unfold Heap.labelAt
          rw [hq, walk_concat, hp]
          show Option.map l ((h.cells a).children.lookup n) = none
          rw [hl]
          rfl
        rw [if_pos hpre, if_pos hpre, if_pos hq, hmissing]
        rfl
      · rw [if_neg hq]

/-- Replacing the entry at a path, as a put into the map. -/
theorem update_labelAt (path : List Bytes) (hw : h.Wf) (hroot : root < h.next) (hu : h.Unshared root) (e : Entry)
    {l : Nat → β} {d : β} (hd : ∀ a, h.next ≤ a → l a = d) (v : β) :
    (h.update root path fun _ => e.childless).Unshared root ∧
      (h.update root path fun _ => e.childless).labelAt root
        (fun b => if b = (traversePath h root path).2 then v else l b)
        = PathMap.put d (h.labelAt root l) path v := by
  obtain ⟨hu', hwalk, hlabel⟩ := traversePath_traversed path hw hroot hu (p := []) rfl
  rw [List.nil_append] at hwalk hlabel
  refine ⟨hu'.set_childless hwalk rfl, ?_⟩
  funext q
  have hold := hlabel l d hd q
  unfold Heap.update PathMap.put Heap.labelAt
  unfold Heap.labelAt at hold
  dsimp only
  rw [walk_set_childless hu' hwalk rfl]
  by_cases hq : path <+: q
  · rw [if_pos hq]
    by_cases heq : q = path
    · subst heq
      rw [if_neg (fun h => h.2 rfl), if_pos rfl, hwalk, Option.map_some, if_pos rfl]
    · rw [if_pos ⟨hq, Ne.symm heq⟩, if_neg heq]
      rfl
  · rw [if_neg (fun h => hq h.1), if_neg hq, ← hold]
    cases hwq : walk (traversePath h root path).1 root q with
    | none => rfl
    | some c =>
      have hne : c ≠ (traversePath h root path).2 := by
        rintro rfl
        exact hq (hu' _ _ _ hwalk hwq ▸ List.prefix_rfl)
      rw [Option.map_some, Option.map_some, if_neg hne]

end LabelAt

/-! ## Archives without hard links and whiteouts -/

/-- The cleaned path. -/
def TarEntry.cleaned (f : TarEntry) : List Bytes := (cleanPath f.path).getD []

/-- The entry of the tree that is made of it. -/
def TarEntry.made (f : TarEntry) : Entry :=
  match f.read with
  | .entry _ e => e.childless
  | _ => default

/-- A file, directory, symlink, fifo or device with a readable header, whose path stays in the layer
and is no whiteout. -/
structure TarEntry.Ordinary (f : TarEntry) : Prop where
  entry : f.read.IsEntry
  path : (cleanPath f.path).isSome = true
  plain : Plain f.cleaned

section Ordinary

variable {f : TarEntry}

theorem TarEntry.Ordinary.read_eq (hf : f.Ordinary) :
    ∃ special e, f.read = .entry special e ∧ f.made = e.childless := by
  have hentry := hf.entry
  cases hread : f.read with
  | skip | hardlink linkName =>
    rw [hread] at hentry
    exact hentry.elim
  | entry special e =>
    refine ⟨special, e, rfl, ?_⟩
    unfold TarEntry.made
    rw [hread]

theorem TarEntry.Ordinary.cleanPath_eq (hf : f.Ordinary) : cleanPath f.path = some f.cleaned := by
  obtain ⟨p, hp⟩ := Option.isSome_iff_exists.mp hf.path
  unfold TarEntry.cleaned
  rw [hp]
  rfl

theorem next_of_ordinary (hf : f.Ordinary) (s : State) :
    (s.next f).heap = s.heap.update s.root f.cleaned (fun _ => f.made.childless) ∧ (s.next f).root = s.root := by
  obtain ⟨special, e, hread, hmade⟩ := hf.read_eq
  unfold State.next
  rw [hread]
  dsimp only
  rw [putEntry_of_plain hf.cleanPath_eq hf.plain, hmade]
  exact ⟨rfl, rfl⟩

end Ordinary

/-- What each path has: the entry without its children, and the target if it is a symlink. -/
def State.seen (s : State) (t : Nat → Option Bytes) : PathMap Bytes (Entry × Option Bytes) :=
  s.heap.labelAt s.root fun a => ((s.heap.cells a).childless, t a)

theorem initial_seen (q : List Bytes) :
    initial.seen (fun _ => none) q = if q = [] then some ({ mode := S_IFDIR ||| 0o555 }, none) else none := by
  cases q with
  | nil | cons n q => rfl

theorem initial_unshared : initial.heap.Unshared initial.root := by
  intro p q a hp hq
  cases p with
  | nil =>
    cases q with
    | nil => rfl
    | cons n q => cases hq
  | cons n p => cases hp

theorem next_seen {f : TarEntry} (hf : f.Ordinary) {s : State} (hs : s.Wf) (hu : s.heap.Unshared s.root)
    {t : Nat → Option Bytes} (ht : ∀ a, s.heap.next ≤ a → t a = none) :
    (s.next f).heap.Unshared (s.next f).root ∧ (∀ a, (s.next f).heap.next ≤ a → s.retarget f t a = none) ∧
      (s.next f).seen (s.retarget f t)
        = PathMap.put (default, none) (s.seen t) f.cleaned (f.made.childless, f.linkName) := by
  obtain ⟨hheap, hroot⟩ := next_of_ordinary hf s
  obtain ⟨special, e, hread, hmade⟩ := hf.read_eq
  have hretarget := retarget_of_some (t := t) (written_of_plain (s := s) hread hf.cleanPath_eq hf.plain)
  have hd : ∀ a, s.heap.next ≤ a → ((s.heap.cells a).childless, t a) = (default, none) := by
    intro a ha
    rw [hs.heap.fresh a ha, ht a ha]
    rfl
  obtain ⟨hu', hlabel⟩ := update_labelAt f.cleaned hs.heap hs.root hu f.made hd (f.made.childless, f.linkName)
  rw [hheap, hroot]
  refine ⟨hu', fun a ha => ?_, ?_⟩
  · have hlt := traversePath_lt f.cleaned hs.heap hs.root
    have hle := traversePath_next f.cleaned hs.heap hs.root
    have ha : (traversePath s.heap s.root f.cleaned).1.next ≤ a := ha
    rw [hretarget]
    dsimp only
    rw [if_neg (by omega)]
    exact ht a (by omega)
  · unfold State.seen
    rw [hheap, hroot, ← hlabel]
    congr 1
    funext b
    rw [hretarget]
    by_cases hb : b = (traversePath s.heap s.root f.cleaned).2
    · subst hb
      rw [if_pos rfl, update_cells_self]
      dsimp only
      rw [if_pos rfl]
      rfl
    · dsimp only
      rw [if_neg hb, if_neg hb, update_childless_of_ne hs.heap hs.root hb]

/-- What the entries put at their paths. -/
def puts (fs : List TarEntry) : List (List Bytes × (Entry × Option Bytes)) :=
  fs.map fun f => (f.cleaned, (f.made.childless, f.linkName))

theorem seen_foldl (fs : List TarEntry) (hfs : ∀ f ∈ fs, f.Ordinary) {s : State} (hs : s.Wf)
    (hu : s.heap.Unshared s.root) {t : Nat → Option Bytes} (ht : ∀ a, s.heap.next ≤ a → t a = none) :
    (fs.foldl State.next s).seen (targets fs s t) = PathMap.puts (default, none) (s.seen t) (puts fs) := by
  induction fs generalizing s t with
  | nil => rfl
  | cons f fs ih =>
    obtain ⟨hf, hfs⟩ := List.forall_mem_cons.mp hfs
    obtain ⟨hu', ht', hseen⟩ := next_seen hf hs hu ht
    have hrest := ih hfs (next_wf hs f) hu' ht'
    rw [hseen] at hrest
    exact hrest

theorem seen_state {ar : Archive} (har : ∀ f ∈ ar.entries, f.Ordinary) :
    ar.state.seen ar.target = PathMap.puts (default, none) (initial.seen fun _ => none) (puts ar.entries) :=
  seen_foldl ar.entries har initial_wf initial_unshared fun _ _ => rfl

end Kata.TarIndex
