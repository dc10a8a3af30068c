import Kata.Lib.Lists
import Kata.Allocator.Tree

/-!
# Kata.Allocator.Balance

The tree mutations keep the AVL shape and act on the in-order list as they should.

* `Avl t`: at every node the caches are the ones `update_cached_info` computes and the cached heights
  of the two children differ by at most 1.
* `Ordered es`: the keys are ranges, each one before the next.
* `updatedNode_spec`: rebuilding a node whose children differ by at most 2 in height succeeds. This is
  the only place where the four rotation cases are looked at; `insert_spec`, `delete_spec` and
  `getNewRoot_spec` apply it on every return path.

Each specification names the position of the key in the in-order list: `insert_spec` turns `pre ++
post` into `pre ++ (key, _) :: post`, `delete_spec` does the reverse and `update_spec` changes the
state in place.
-/

namespace Kata.Allocator

variable {T : Type}

def Ordered (es : List (Range × NodeState T)) : Prop :=
  (∀ e ∈ es, e.1.Wf) ∧ es.Pairwise fun a b => a.1.Before b.1

namespace Ordered

variable {es es' pre post : List (Range × NodeState T)} {e : Range × NodeState T}

theorem sublist (h : Ordered es) (hs : List.Sublist es' es) : Ordered es' :=
  ⟨fun e he => h.1 e (hs.subset he), h.2.sublist hs⟩

theorem before_of_mem_left (h : Ordered (pre ++ e :: post)) {a : Range × NodeState T}
    (ha : a ∈ pre) : a.1.Before e.1 :=
  (List.pairwise_append.mp h.2).2.2 a ha e (by simp)

theorem before_of_mem_right (h : Ordered (pre ++ e :: post)) {b : Range × NodeState T}
    (hb : b ∈ post) : e.1.Before b.1 :=
  (List.pairwise_cons.mp (List.pairwise_append.mp h.2).2.1).1 b hb

end Ordered

namespace Tree

def Avl : Tree T → Prop
  | .nil => True
  | .node k _ l r h m =>
    l.Avl ∧ r.Avl ∧ h = max l.height r.height + 1 ∧ m = max l.maxKey (max r.maxKey k.max) ∧
      l.height ≤ r.height + 1 ∧ r.height ≤ l.height + 1

/-- `t` is an AVL tree with the in-order list `es` and a height of `n` or `n + 1`. -/
structure Rebuilt (t : Tree T) (es : List (Range × NodeState T)) (n : Nat) : Prop where
  avl : t.Avl
  entries : t.entries = es
  le : n ≤ t.height
  ge : t.height ≤ n + 1

@[simp] theorem updateCachedInfo_node (k : Range) (d : NodeState T) (l r : Tree T) (h m : Nat) :
    updateCachedInfo (.node k d l r h m) =
      .node k d l r (max l.height r.height + 1) (max l.maxKey (max r.maxKey k.max)) := rfl

variable {k : Range} {d : NodeState T} {l r : Tree T} {h m : Nat}

theorem avl_node (hl : l.Avl) (hr : r.Avl) (h1 : l.height ≤ r.height + 1) (h2 : r.height ≤ l.height + 1) :
    (updateCachedInfo (.node k d l r h m)).Avl := ⟨hl, hr, rfl, rfl, h1, h2⟩

/-! ## Rotations -/

theorem rotateLeftSuccessor_spec (hl : l.Avl) (hr : r.Avl) (hh : l.height = r.height + 2) :
    ∃ t, rotateLeftSuccessor (.node k d l r h m) = .ok t ∧
      Rebuilt t (l.entries ++ (k, d) :: r.entries) l.height := by
  cases l with
  | nil => simp at hh
  | node lk ld ll lr lh lm =>
    obtain ⟨hll, hlr, rfl, rfl, h1, h2⟩ := hl
    by_cases hlt : ll.height < lr.height
    · -- the inner grandchild is the higher one: it becomes the root
      cases lr with
      | nil => simp at hlt
      | node mk md ml mr mh mm =>
        obtain ⟨hml, hmr, rfl, rfl, h3, h4⟩ := hlr
        refine ⟨_, by rw [rotateLeftSuccessor, if_pos hlt]; rfl, ?_⟩
        simp only [height_node] at hh hlt h1 h2
        have hL := avl_node (k := lk) (d := ld) (h := 0) (m := 0) hll hml (by omega) (by omega)
        have hR := avl_node (k := k) (d := d) (h := 0) (m := 0) hmr hr (by omega) (by omega)
        refine ⟨avl_node hL hR ?_ ?_, ?_, ?_, ?_⟩
        all_goals simp only [updateCachedInfo_node, entries_node, height_node, List.append_assoc, List.cons_append]
        all_goals omega
    · -- the outer grandchild is at least as high: one right rotation
      refine ⟨_, by rw [rotateLeftSuccessor, if_neg hlt]; rfl, ?_⟩
      simp only [height_node] at hh
      have hR := avl_node (k := k) (d := d) (h := 0) (m := 0) hlr hr (by omega) (by omega)
      refine ⟨avl_node hll hR ?_ ?_, ?_, ?_, ?_⟩
      all_goals simp only [updateCachedInfo_node, entries_node, height_node, List.append_assoc, List.cons_append]
      all_goals omega

theorem rotateRightSuccessor_spec (hl : l.Avl) (hr : r.Avl) (hh : r.height = l.height + 2) :
    ∃ t, rotateRightSuccessor (.node k d l r h m) = .ok t ∧
      Rebuilt t (l.entries ++ (k, d) :: r.entries) r.height := by
  cases r with
  | nil => simp at hh
  | node rk rd rl rr rh rm =>
    obtain ⟨hrl, hrr, rfl, rfl, h1, h2⟩ := hr
    by_cases hlt : rl.height > rr.height
    · cases rl with
      | nil => simp at hlt
      | node mk md ml mr mh mm =>
        obtain ⟨hml, hmr, rfl, rfl, h3, h4⟩ := hrl
        refine ⟨_, by rw [rotateRightSuccessor, if_pos hlt]; rfl, ?_⟩
        simp only [height_node] at hh hlt h1 h2
        have hL := avl_node (k := k) (d := d) (h := 0) (m := 0) hl hml (by omega) (by omega)
        have hR := avl_node (k := rk) (d := rd) (h := 0) (m := 0) hmr hrr (by omega) (by omega)
        refine ⟨avl_node hL hR ?_ ?_, ?_, ?_, ?_⟩
        all_goals simp only [updateCachedInfo_node, entries_node, height_node, List.append_assoc, List.cons_append]
        all_goals omega
    · refine ⟨_, by rw [rotateRightSuccessor, if_neg hlt]; rfl, ?_⟩
      simp only [height_node] at hh
      have hL := avl_node (k := k) (d := d) (h := 0) (m := 0) hl hrl (by omega) (by omega)
      refine ⟨avl_node hL hrr ?_ ?_, ?_, ?_, ?_⟩
      all_goals simp only [updateCachedInfo_node, entries_node, height_node, List.append_assoc, List.cons_append]
      all_goals omega

/-- Rebuilding a node over two AVL children whose heights differ by at most 2. The node keeps its
height of `max + 1` when they differ by at most 1, and may lose one level otherwise. -/
theorem updatedNode_spec (hl : l.Avl) (hr : r.Avl) (h1 : l.height ≤ r.height + 2) (h2 : r.height ≤ l.height + 2) :
    ∃ t, updatedNode (.node k d l r h m) = .ok t ∧
      Rebuilt t (l.entries ++ (k, d) :: r.entries) (max l.height r.height) ∧
      (l.height ≤ r.height + 1 → r.height ≤ l.height + 1 →
        t.height = max l.height r.height + 1) := by
  simp only [updatedNode, updateCachedInfo_node, rotate]
  by_cases hb : l.height ≤ r.height + 1 ∧ r.height ≤ l.height + 1
  · rw [if_pos (by omega)]
    exact ⟨_, rfl, ⟨avl_node (h := h) (m := m) hl hr hb.1 hb.2, rfl, by simp, by simp⟩, fun _ _ => rfl⟩
  · rw [if_neg (by omega)]
    by_cases hlr : l.height = r.height + 2
    · rw [if_pos (by omega), show max l.height r.height = l.height by omega]
      obtain ⟨t, ht, hrb⟩ := rotateLeftSuccessor_spec hl hr hlr
      exact ⟨t, ht, hrb, fun _ _ => by omega⟩
    · rw [if_neg (by omega), if_pos (by omega), show max l.height r.height = r.height by omega]
      obtain ⟨t, ht, hrb⟩ := rotateRightSuccessor_spec hl hr (by omega)
      exact ⟨t, ht, hrb, fun _ _ => by omega⟩

/-- Rebuilding a node for a height that its children allow. -/
theorem updatedNode_rebuilt (k : Range) (d : NodeState T) (h m : Nat) {n : Nat} (hl : l.Avl) (hr : r.Avl)
    (h1 : l.height ≤ r.height + 2) (h2 : r.height ≤ l.height + 2)
    (hn : n = max l.height r.height ∨
      n = max l.height r.height + 1 ∧ l.height ≤ r.height + 1 ∧ r.height ≤ l.height + 1) :
    ∃ t, updatedNode (.node k d l r h m) = .ok t ∧ Rebuilt t (l.entries ++ (k, d) :: r.entries) n := by
  obtain ⟨t, ht, hrb, hbal⟩ := updatedNode_spec (k := k) (d := d) (h := h) (m := m) hl hr h1 h2
  have hle := hrb.le
  have hge := hrb.ge
  exact ⟨t, ht, hrb.avl, hrb.entries, by omega, by omega⟩

variable {t : Tree T}

/-- A balanced node with true caches is left alone. -/
theorem updatedNode_self (h : t.Avl) : updatedNode t = .ok t := by
  cases t with
  | nil => rfl
  | node k d l r h m =>
    obtain ⟨_, _, rfl, rfl, h1, h2⟩ := h
    simp only [updatedNode, updateCachedInfo_node, rotate]
    rw [if_pos (by omega)]

/-! ## Insertion and update -/

theorem insert_spec (key : Range) (data : Option T) : ∀ {t : Tree T} {pre post}, t.Avl →
    t.entries = pre ++ post → Ordered (pre ++ (key, NodeState.ofOption data) :: post) →
    ∃ t', t.insert key data = .ok t' ∧
      Rebuilt t' (pre ++ (key, .ofOption data) :: post) t.height := by
  intro t
  induction t with
  | nil =>
    intro pre post _ he _
    obtain ⟨rfl, rfl⟩ := List.append_eq_nil_iff.mp he.symm
    exact ⟨_, rfl, ⟨⟨trivial, trivial, rfl, by simp, by simp, by simp⟩, rfl, by simp, by simp [Tree.new]⟩⟩
  | node k d l r h m ihl ihr =>
    intro pre post ha he ho
    obtain ⟨hl, hr, rfl, _, h1, h2⟩ := ha
    have hkey : key.Wf := ho.1 (key, .ofOption data) (by simp)
    rcases Lib.append_cons_cut he with ⟨c, hlc, rfl⟩ | ⟨c, rfl, hrc⟩
    · -- `key` comes before the key of this node
      have hb : key.Before k := ho.before_of_mem_right (b := (k, d)) (by simp)
      have hk : k.Wf := ho.1 (k, d) (by simp)
      have hni : k.intersect key = false := by
        rw [Bool.eq_false_iff]; exact fun hi => ((Range.intersect_iff hk hkey).mp hi).2 hb
      obtain ⟨l', hl', hrb⟩ := ihl hl hlc (ho.sublist (by simp))
      have hle := hrb.le
      have hge := hrb.ge
      obtain ⟨t', ht', hrb'⟩ := updatedNode_rebuilt k d (max l.height r.height + 1) m
        (n := max l.height r.height + 1) hrb.avl hr
        (by omega) (by omega) (by omega)
      refine ⟨t', ?_, hrb'.avl, by rw [hrb'.entries, hrb.entries]; simp, hrb'.le, hrb'.ge⟩
      simp only [insert, Range.cmp_of_after hkey hb, hni, hl']; exact ht'
    · -- `key` comes after it
      have hb : k.Before key := ho.before_of_mem_left (a := (k, d)) (by simp)
      have hk : k.Wf := ho.1 (k, d) (by simp)
      have hni : k.intersect key = false := by
        rw [Bool.eq_false_iff]; exact fun hi => ((Range.intersect_iff hk hkey).mp hi).1 hb
      obtain ⟨r', hr', hrb⟩ := ihr hr hrc (ho.sublist (by simp))
      have hle := hrb.le
      have hge := hrb.ge
      obtain ⟨t', ht', hrb'⟩ := updatedNode_rebuilt k d (max l.height r.height + 1) m
        (n := max l.height r.height + 1) hl hrb.avl
        (by omega) (by omega) (by omega)
      refine ⟨t', ?_, hrb'.avl, by rw [hrb'.entries, hrb.entries]; simp, hrb'.le, hrb'.ge⟩
      simp only [insert, Range.cmp_of_before hk hb, hni, hr']; exact ht'

variable {key : Range} {st : NodeState T}

theorem cmp_root {pre post} (ho : Ordered (Tree.node k d l r h m).entries)
    (he : (Tree.node k d l r h m).entries = pre ++ (key, st) :: post) :
    (k.cmp key = .gt ∧ ∃ c, l.entries = pre ++ (key, st) :: c ∧ post = c ++ (k, d) :: r.entries) ∨
      (k.cmp key = .eq ∧ k = key ∧ d = st ∧ l.entries = pre ∧ r.entries = post) ∨
      (k.cmp key = .lt ∧ ∃ c, pre = l.entries ++ (k, d) :: c ∧ r.entries = c ++ (key, st) :: post) := by
  have hk : k.Wf := ho.1 (k, d) (by simp)
  have hkey : key.Wf := ho.1 (key, st) (by rw [he]; simp)
  rcases Lib.append_cons_elem he with ⟨c, hl, rfl⟩ | ⟨hl, hx, hr⟩ | ⟨c, rfl, hr⟩
  · exact .inl ⟨Range.cmp_of_after hkey (ho.before_of_mem_left (a := (key, st)) (by simp [hl])), c, hl, rfl⟩
  · cases hx
    exact .inr (.inl ⟨Range.cmp_eq_iff.mpr rfl, rfl, rfl, hl, hr⟩)
  · exact .inr (.inr ⟨Range.cmp_of_before hk (ho.before_of_mem_right (b := (key, st)) (by simp [hr])),
      c, rfl, hr⟩)

theorem update_spec (data : NodeState T) (hst : updateRefused st data = false) :
    ∀ {t : Tree T} {pre post}, t.Avl → Ordered t.entries → t.entries = pre ++ (key, st) :: post →
    ∃ t', t.update key data = .ok (st.toOption, t') ∧ t'.Avl ∧ t'.height = t.height ∧
      t'.maxKey = t.maxKey ∧ t'.entries = pre ++ (key, data) :: post := by
  intro t
  induction t with
  | nil => intro pre post _ _ he; simp at he
  | node k d l r h m ihl ihr =>
    intro pre post ha ho he
    obtain ⟨hl, hr, hh, hm, h1, h2⟩ := ha
    rcases cmp_root ho he with ⟨hc, c, hlc, rfl⟩ | ⟨hc, rfl, rfl, rfl, rfl⟩ | ⟨hc, c, rfl, hrc⟩
    · obtain ⟨l', hl', ha', hh', hm', he'⟩ := ihl hl (ho.sublist (by simp)) hlc
      refine ⟨.node k d l' r h m, by simp [update, hc, hl'], ?_, rfl, rfl, by simp [he']⟩
      exact ⟨ha', hr, by rw [hh', hh], by rw [hm', hm], by rw [hh']; exact h1, by rw [hh']; exact h2⟩
    · exact ⟨.node k data l r h m, by simp [update, hc, hst], ⟨hl, hr, hh, hm, h1, h2⟩, rfl, rfl, rfl⟩
    · obtain ⟨r', hr', ha', hh', hm', he'⟩ := ihr hr (ho.sublist (by simp)) hrc
      refine ⟨.node k d l r' h m, by simp [update, hc, hr'], ?_, rfl, rfl, by simp [he']⟩
      exact ⟨hl, ha', by rw [hh', hh], by rw [hm', hm], by rw [hh']; exact h1, by rw [hh']; exact h2⟩

theorem update_refused {st data : NodeState T} (hst : updateRefused st data = true) :
    ∀ {t : Tree T} {pre post}, Ordered t.entries → t.entries = pre ++ (key, st) :: post →
    t.update key data = .error .updateUnallocated := by
  intro t
  induction t with
  | nil => intro pre post _ he; simp at he
  | node k d l r h m ihl ihr =>
    intro pre post ho he
    rcases cmp_root ho he with ⟨hc, c, hlc, _⟩ | ⟨hc, _, rfl, _, _⟩ | ⟨hc, c, _, hrc⟩
    · simp [update, hc, ihl (ho.sublist (by simp)) hlc]
    · simp [update, hc, hst]
    · simp [update, hc, ihr (ho.sublist (by simp)) hrc]

theorem update_missing {data : NodeState T} :
    ∀ {t : Tree T}, (∀ e ∈ t.entries, e.1 ≠ key) → t.update key data = .ok (none, t) := by
  intro t
  induction t with
  | nil => intro _; rfl
  | node k d l r h m ihl ihr =>
    intro hne
    have hk : k.cmp key ≠ .eq := fun hc => hne (k, d) (by simp) (Range.cmp_eq_iff.mp hc)
    have hl := ihl fun e he => hne e (by simp [he])
    have hr := ihr fun e he => hne e (by simp [he])
    cases hc : k.cmp key with
    | lt => simp [update, hc, hr]
    | eq => exact absurd hc hk
    | gt => simp [update, hc, hl]

/-! ## Deletion -/

theorem getNewRoot_spec : ∀ {left : Tree T} {key : Range} {data : NodeState T} {right : Tree T}
    {h m : Nat}, (Tree.node key data left right h m).Avl →
    ∃ e t', getNewRoot key data right h m left = .ok (e, t') ∧
      left.entries ++ (key, data) :: right.entries = e :: t'.entries ∧
      Rebuilt t' t'.entries (max left.height right.height) := by
  intro left
  induction left with
  | nil =>
    intro key data right h m ha
    exact ⟨_, right, rfl, rfl, ha.2.1, rfl, by simp, by simp⟩
  | node lk ld ll lr lh lm ihl _ =>
    intro key data right h m ha
    obtain ⟨hl, hr, _, _, h1, h2⟩ := ha
    obtain ⟨e, l', hg, hes, hrb⟩ := ihl hl
    have hle := hrb.le
    have hge := hrb.ge
    have hlh := hl.2.2.1
    simp only [height_node] at h1 h2
    obtain ⟨t', ht', hrb'⟩ := updatedNode_rebuilt key data h m (n := max lh right.height)
      hrb.avl hr (by omega) (by omega) (by omega)
    refine ⟨e, t', ?_, ?_, hrb'.avl, rfl, hrb'.le, hrb'.ge⟩
    · simp [getNewRoot, hg, ht']
    · rw [hrb'.entries, entries_node, hes]; simp

theorem deleteRoot_spec (hl : l.Avl) (hr : r.Avl) (h1 : l.height ≤ r.height + 1) (h2 : r.height ≤ l.height + 1) :
    ∃ t', deleteRoot l r = .ok t' ∧ Rebuilt t' (l.entries ++ r.entries) (max l.height r.height) := by
  cases r with
  | nil =>
    refine ⟨l, by cases l <;> rfl, hl, by simp, by simp, by simp⟩
  | node rk rd rl rr rh rm =>
    cases l with
    | nil => exact ⟨_, rfl, hr, by simp, by simp, by simp⟩
    | node lk ld ll lr lh lm =>
      obtain ⟨e, r', hg, hes, hrb⟩ := getNewRoot_spec hr
      have hle := hrb.le
      have hge := hrb.ge
      have hrh := hr.2.2.1
      simp only [height_node] at h1 h2
      obtain ⟨t', ht', hrb'⟩ := updatedNode_rebuilt e.1 e.2 0 0 (n := max lh rh)
        hl hrb.avl (by simp only [height_node]; omega) (by simp only [height_node]; omega)
        (by simp only [height_node]; omega)
      refine ⟨t', ?_, hrb'.avl, ?_, hrb'.le, hrb'.ge⟩
      · simp only [deleteRoot, hg, Lib.ok_bind]; exact ht'
      · rw [hrb'.entries, entries_node rk, hes]

theorem isNone_of_mem {e : Range × NodeState T} (h : e ∈ t.entries) : t.isNone = false := by
  cases t with
  | nil => simp at h
  | node => rfl

theorem height_pos (ha : t.Avl) (h : t.isNone = false) : 0 < t.height := by
  cases t with
  | nil => simp at h
  | node => rw [height_node, ha.2.2.1]; omega

theorem delete_spec : ∀ {t : Tree T} {pre post}, t.Avl →
    Ordered t.entries → t.entries = pre ++ (key, st) :: post →
    ∃ t', t.delete key = .ok (st.toOption, t') ∧ Rebuilt t' (pre ++ post) (t.height - 1) := by
  intro t
  induction t with
  | nil => intro pre post _ _ he; simp at he
  | node k d l r h m ihl ihr =>
    intro pre post ha ho he
    obtain ⟨hl, hr, rfl, _, h1, h2⟩ := ha
    rcases cmp_root ho he with ⟨hc, c, hlc, rfl⟩ | ⟨hc, rfl, rfl, rfl, rfl⟩ | ⟨hc, c, rfl, hrc⟩
    · obtain ⟨l', hl', hrb⟩ := ihl hl (ho.sublist (by simp)) hlc
      have hnone : l.isNone = false := isNone_of_mem (e := (key, st)) (by simp [hlc])
      have hpos := height_pos hl hnone
      have hge := hrb.ge
      have hle := hrb.le
      obtain ⟨t', ht', hrb'⟩ := updatedNode_rebuilt k d (max l.height r.height + 1) m
        (n := max l.height r.height) hrb.avl hr
        (by omega) (by omega) (by omega)
      refine ⟨t', by simp [delete, hc, hnone, hl', ht'], hrb'.avl, ?_, hrb'.le, hrb'.ge⟩
      rw [hrb'.entries, hrb.entries]; simp
    · obtain ⟨t', ht', hrb⟩ := deleteRoot_spec hl hr h1 h2
      exact ⟨t', by simp [delete, hc, ht'], hrb.avl, hrb.entries, hrb.le, hrb.ge⟩
    · obtain ⟨r', hr', hrb⟩ := ihr hr (ho.sublist (by simp)) hrc
      have hnone : r.isNone = false := isNone_of_mem (e := (key, st)) (by simp [hrc])
      have hpos := height_pos hr hnone
      have hge := hrb.ge
      have hle := hrb.le
      obtain ⟨t', ht', hrb'⟩ := updatedNode_rebuilt k d (max l.height r.height + 1) m
        (n := max l.height r.height) hl hrb.avl
        (by omega) (by omega) (by omega)
      refine ⟨t', by simp [delete, hc, hnone, hr', ht'], hrb'.avl, ?_, hrb'.le, hrb'.ge⟩
      rw [hrb'.entries, hrb.entries]; simp

theorem delete_missing : ∀ {t : Tree T}, t.Avl → (∀ e ∈ t.entries, e.1 ≠ key) →
    t.delete key = .ok (none, t) := by
  intro t
  induction t with
  | nil => intro _ _; rfl
  | node k d l r h m ihl ihr =>
    intro ha hne
    have hk : k.cmp key ≠ .eq := fun hc => hne (k, d) (by simp) (Range.cmp_eq_iff.mp hc)
    have hl := ihl ha.1 fun e he => hne e (by simp [he])
    have hr := ihr ha.2.1 fun e he => hne e (by simp [he])
    have hself := updatedNode_self ha
    cases hc : k.cmp key with
    | lt => by_cases hn : r.isNone <;> simp [delete, hc, hn, hr, hself]
    | eq => exact absurd hc hk
    | gt => by_cases hn : l.isNone <;> simp [delete, hc, hn, hl, hself]

end Tree
end Kata.Allocator
