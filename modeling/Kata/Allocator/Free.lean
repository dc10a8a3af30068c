import Kata.Allocator.Allocate

/-!
# Kata.Allocator.Free

What `free` does to the in-order list of a tree.

The freed key is merged with a free entry that ends right below it and with one that starts right
above it. `LeftMerge k pre pre' lo` says what happens below `k`: `pre` loses its last entry, or
nothing, and the merged range starts at `lo`. `RightMerge` is its mirror image. `free` finds the two
neighbours with a lookup of a single id and deletes them by reconstructed keys; `free_spec` shows
that these are the keys of the merged entries.
-/

namespace Kata.Allocator

open Lib

variable {T : Type}

inductive LeftMerge (k : Range) :
    List (Range × NodeState T) → List (Range × NodeState T) → Nat → Prop where
  | keep {pre : List (Range × NodeState T)} : (∀ e ∈ pre, e.1.max + 1 = k.min → e.2 ≠ .free) →
      LeftMerge k pre pre k.min
  | join {pre : List (Range × NodeState T)} {lo : Nat} : lo < k.min →
      LeftMerge k (pre ++ [(⟨lo, k.min - 1⟩, .free)]) pre lo

inductive RightMerge (k : Range) :
    List (Range × NodeState T) → List (Range × NodeState T) → Nat → Prop where
  | keep {post : List (Range × NodeState T)} : (∀ e ∈ post, k.max + 1 = e.1.min → e.2 ≠ .free) →
      RightMerge k post post k.max
  | join {post : List (Range × NodeState T)} {hi : Nat} : k.max < hi →
      RightMerge k ((⟨k.max + 1, hi⟩, .free) :: post) post hi

section Neighbours

variable {pre post : List (Range × NodeState T)} {k : Range} {st : NodeState T}
  {e : Range × NodeState T}

theorem neighbour_below (ho : Ordered (pre ++ (k, st) :: post)) (h0 : 0 < k.min)
    (he : e ∈ pre ++ post) (hid : e.1.Has (k.min - 1)) : ∃ pre', pre = pre' ++ [e] ∧ e.1 = ⟨e.1.min, k.min - 1⟩ := by
  have hk : k.min ≤ k.max := (ho.1 (k, st) (by simp)).min_le_max
  have h1 := hid.1
  have h2 := hid.2
  cases List.mem_append.mp he with
  | inr hpost =>
    have hb : k.max < e.1.min := ho.before_of_mem_right hpost
    omega
  | inl hpre =>
    have hb : e.1.max < k.min := ho.before_of_mem_left hpre
    obtain ⟨p1, p2, hp⟩ := List.append_of_mem hpre
    cases p2 with
    | nil =>
      refine ⟨p1, hp, ?_⟩
      have hmax : e.1.max = k.min - 1 := by omega
      rw [← hmax]
    | cons b p2 =>
      -- an entry in between would have to fit between adjacent ids
      rw [hp] at ho
      have hbk : b.1.max < k.min := ho.before_of_mem_left (by simp)
      rw [List.append_assoc] at ho
      have heb : e.1.max < b.1.min := ho.before_of_mem_right (by simp)
      have hbw := (ho.1 b (by simp)).min_le_max
      omega

theorem neighbour_above (ho : Ordered (pre ++ (k, st) :: post)) (he : e ∈ pre ++ post) (hid : e.1.Has (k.max + 1)) :
    ∃ post', post = e :: post' ∧ e.1 = ⟨k.max + 1, e.1.max⟩ := by
  have hk : k.min ≤ k.max := (ho.1 (k, st) (by simp)).min_le_max
  have h1 := hid.1
  have h2 := hid.2
  cases List.mem_append.mp he with
  | inl hpre =>
    have hb : e.1.max < k.min := ho.before_of_mem_left hpre
    omega
  | inr hpost =>
    have hb : k.max < e.1.min := ho.before_of_mem_right hpost
    cases post with
    | nil => simp at hpost
    | cons b post =>
      cases List.mem_cons.mp hpost with
      | inl heq =>
        subst heq
        refine ⟨post, rfl, ?_⟩
        have hmin : e.1.min = k.max + 1 := by omega
        rw [← hmin]
      | inr hmem =>
        have hkb : k.max < b.1.min := ho.before_of_mem_right (by simp)
        have hbw := (ho.1 b (by simp)).min_le_max
        have ho' : Ordered ((pre ++ [(k, st)]) ++ b :: post) := by simpa using ho
        have hbe : b.1.max < e.1.min := ho'.before_of_mem_right hmem
        omega

theorem has_of_adj_below {a : Range} (hw : a.Wf) (hadj : a.max + 1 = k.min) : a.Has (k.min - 1) := by
  have := hw.min_le_max
  constructor <;> omega

theorem has_of_adj_above {a : Range} (hw : a.Wf) (hadj : k.max + 1 = a.min) : a.Has (k.max + 1) := by
  have := hw.min_le_max
  constructor <;> omega

end Neighbours

namespace IntervalTree

section Merge

variable {checks : Bool} {t : IntervalTree T} {pre post pre' post' : List (Range × NodeState T)}
  {k : Range} {st : NodeState T} {lo hi : Nat}

theorem point_new {p : Nat} : Range.new p p = .ok (Range.newPoint p) := by
  refine Range.new_eq_ok (Nat.le_refl p) ?_
  intro h
  have h1 := h.1
  have h2 := h.2
  simp only [u64Max] at h2
  omega

/-- The free range with the id `p`. -/
def freeAt (t : IntervalTree T) (p : Nat) : Option Range :=
  (t.getSuperset (Range.newPoint p)).bind fun e => if e.2.isFree then some e.1 else none

theorem freeAt_eq_some {p : Nat} {r : Range} (ho : Ordered t.entries) :
    t.freeAt p = some r ↔ (r, .free) ∈ t.entries ∧ r.Has p := by
  simp only [freeAt, Option.bind_eq_some_iff, getSuperset, Tree.searchSuperset_point ho]
  constructor
  · rintro ⟨⟨r', st⟩, ⟨hmem, hid⟩, h⟩
    obtain ⟨hf, ⟨⟩⟩ := Option.ite_none_right_eq_some.mp h
    obtain rfl : st = .free := NodeState.isFree_iff.mp hf
    exact ⟨hmem, hid⟩
  · rintro ⟨hmem, hid⟩
    exact ⟨(r, .free), ⟨hmem, hid⟩, rfl⟩

theorem not_free_of_freeAt {p : Nat} (ho : Ordered t.entries) (h : t.freeAt p = none) {a : Range × NodeState T}
    (ha : a ∈ t.entries) (hid : a.1.Has p) : a.2 ≠ .free := by
  intro hf
  rw [(freeAt_eq_some ho).mpr ⟨hf ▸ ha, hid⟩] at h
  cases h

theorem mergedMin_eq (h0 : 0 < k.min) :
    mergedMin checks t k = .ok ((t.freeAt (k.min - 1)).elim k.min Range.min) := by
  rw [mergedMin, if_pos h0, subU64_of_le h0, ok_bind, point_new, ok_bind, freeAt]
  cases t.getSuperset (Range.newPoint (k.min - 1)) with
  | none => rfl
  | some e =>
    obtain ⟨r, st⟩ := e
    cases st <;> rfl

theorem mergedMax_eq (h0 : k.max < u64Max) :
    mergedMax checks t k = .ok ((t.freeAt (k.max + 1)).elim k.max Range.max) := by
  rw [mergedMax, if_pos h0, addU64_of_le h0, ok_bind, point_new, ok_bind, freeAt]
  cases t.getSuperset (Range.newPoint (k.max + 1)) with
  | none => rfl
  | some e =>
    obtain ⟨r, st⟩ := e
    cases st <;> rfl

section Ends

variable (checks : Bool) (ho : Ordered (pre ++ (k, st) :: post)) (he : t.entries = pre ++ post)
include ho he

theorem mergedMin_spec : ∃ pre' lo, mergedMin checks t k = .ok lo ∧ LeftMerge k pre pre' lo := by
  have hot : Ordered t.entries := he ▸ ho.sublist (by simp)
  by_cases h0 : k.min > 0
  · rw [mergedMin_eq h0]
    cases hs : t.freeAt (k.min - 1) with
    | none =>
      refine ⟨pre, k.min, rfl, .keep fun a ha hadj => ?_⟩
      exact not_free_of_freeAt hot hs (by simp [he, ha]) (has_of_adj_below (ho.1 a (by simp [ha])) hadj)
    | some r =>
      obtain ⟨hmem, hid⟩ := (freeAt_eq_some hot).mp hs
      obtain ⟨p, rfl, hkey⟩ := neighbour_below ho h0 (he ▸ hmem) hid
      have hlt : r.min < k.min := by have := hid.1; omega
      refine ⟨p, r.min, rfl, ?_⟩
      rw [show r = ⟨r.min, k.min - 1⟩ from hkey]
      exact .join hlt
  · refine ⟨pre, k.min, if_neg h0, .keep ?_⟩
    intro a _ hadj
    omega

theorem mergedMax_spec : ∃ post' hi, mergedMax checks t k = .ok hi ∧ RightMerge k post post' hi := by
  have hot : Ordered t.entries := he ▸ ho.sublist (by simp)
  by_cases h0 : k.max < u64Max
  · rw [mergedMax_eq h0]
    cases hs : t.freeAt (k.max + 1) with
    | none =>
      refine ⟨post, k.max, rfl, .keep fun a ha hadj => ?_⟩
      exact not_free_of_freeAt hot hs (by simp [he, ha]) (has_of_adj_above (ho.1 a (by simp [ha])) hadj)
    | some r =>
      obtain ⟨hmem, hid⟩ := (freeAt_eq_some hot).mp hs
      obtain ⟨p, rfl, hkey⟩ := neighbour_above ho (he ▸ hmem) hid
      have hlt : k.max < r.max := by have := hid.2; omega
      refine ⟨p, r.max, rfl, ?_⟩
      rw [show r = ⟨k.max + 1, r.max⟩ from hkey]
      exact .join hlt
  · refine ⟨post, k.max, if_neg h0, .keep ?_⟩
    intro a ha hadj
    have haw := ho.1 a (by simp [ha])
    have h1 := haw.min_le_max
    have h2 := haw.max_le
    omega

end Ends

theorem deleteBelow_spec (checks : Bool) (hi : Nat) (ha : t.Avl) (ho : Ordered t.entries)
    (he : t.entries = pre ++ post) (hk : k.min ≤ u64Max) (hm : LeftMerge k pre pre' lo) :
    ∃ t', deleteBelow checks t ⟨lo, hi⟩ k = .ok t' ∧ t'.Avl ∧ t'.entries = pre' ++ post := by
  cases hm with
  | keep => exact ⟨t, by simp [deleteBelow], ha, he⟩
  | join hlt =>
    have he' : t.entries = pre' ++ (⟨lo, k.min - 1⟩, .free) :: post := by simp [he]
    obtain ⟨t', ht', hrb⟩ := Tree.delete_spec ha ho he'
    refine ⟨t', ?_, hrb.avl, hrb.entries⟩
    have h1 : 1 ≤ k.min := by omega
    have h2 : lo ≤ k.min - 1 := by omega
    rw [deleteBelow, if_pos hlt, subU64_of_le h1, ok_bind, Range.new_eq_ok h2 (by omega),
      ok_bind, ht']
    rfl

theorem deleteAbove_spec (checks : Bool) (lo : Nat) (ha : t.Avl) (ho : Ordered t.entries)
    (he : t.entries = pre ++ post) (hm : RightMerge k post post' hi) :
    ∃ t', deleteAbove checks t ⟨lo, hi⟩ k = .ok t' ∧ t'.Avl ∧ t'.entries = pre ++ post' := by
  cases hm with
  | keep => exact ⟨t, by simp [deleteAbove], ha, he⟩
  | join hlt =>
    obtain ⟨t', ht', hrb⟩ := Tree.delete_spec ha ho he
    refine ⟨t', ?_, hrb.avl, hrb.entries⟩
    have hle : hi ≤ u64Max := (ho.1 (⟨k.max + 1, hi⟩, .free) (by simp [he])).max_le
    have h2 : k.max + 1 ≤ hi := hlt
    rw [deleteAbove, if_pos hlt, addU64_of_le (by omega), ok_bind, Range.new_eq_ok h2 (by omega),
      ok_bind, ht']
    rfl

end Merge

end IntervalTree

section Merged

variable {pre post pre' post' : List (Range × NodeState T)} {k : Range} {st : NodeState T}
  {lo hi : Nat}

/-- The entries that `free` leaves in place, and the bounds of the merged range. -/
theorem LeftMerge.sublist (h : LeftMerge k pre pre' lo) : List.Sublist pre' pre := by
  cases h with
  | keep => exact List.Sublist.refl _
  | join => simp

theorem RightMerge.sublist (h : RightMerge k post post' hi) : List.Sublist post' post := by
  cases h with
  | keep => exact List.Sublist.refl _
  | join => simp

theorem LeftMerge.le (h : LeftMerge k pre pre' lo) : lo ≤ k.min := by
  cases h with
  | keep => exact Nat.le_refl _
  | join hlt => exact Nat.le_of_lt hlt

theorem RightMerge.ge (h : RightMerge k post post' hi) : k.max ≤ hi := by
  cases h with
  | keep => exact Nat.le_refl _
  | join hlt => exact Nat.le_of_lt hlt

section

variable (ho : Ordered (pre ++ (k, st) :: post))
include ho

theorem LeftMerge.before (h : LeftMerge k pre pre' lo) : ∀ a ∈ pre', a.1.max < lo := by
  intro a ha
  cases h with
  | keep => exact ho.before_of_mem_left ha
  | join hlt =>
    rw [List.append_assoc] at ho
    exact ho.before_of_mem_left ha

theorem RightMerge.after (h : RightMerge k post post' hi) : ∀ b ∈ post', hi < b.1.min := by
  intro b hb
  cases h with
  | keep => exact ho.before_of_mem_right hb
  | join hlt =>
    rw [List.append_cons] at ho
    exact ho.before_of_mem_right hb

theorem RightMerge.le (h : RightMerge k post post' hi) : hi ≤ u64Max := by
  cases h with
  | keep => exact (ho.1 (k, st) (by simp)).max_le
  | join => exact (ho.1 (⟨k.max + 1, hi⟩, .free) (by simp)).max_le

theorem ordered_merged (hl : LeftMerge k pre pre' lo)
    (hr : RightMerge k post post' hi) : Ordered (pre' ++ (⟨lo, hi⟩, .free) :: post') := by
  have hk : k.min ≤ k.max := (ho.1 (k, st) (by simp)).min_le_max
  have hlo := hl.le
  have hhi := hr.ge
  have hle := hr.le ho
  have hrest : Ordered (pre' ++ post') := by
    refine ho.sublist (List.Sublist.append hl.sublist ?_)
    exact hr.sublist.trans (List.sublist_cons_self _ _)
  obtain ⟨hw, hpw⟩ := hrest
  rw [List.pairwise_append] at hpw
  constructor
  · intro e he
    simp only [List.mem_append, List.mem_cons] at he
    cases he with
    | inl he => exact hw e (by simp [he])
    | inr he =>
      cases he with
      | inl he => subst he; exact ⟨by simp only; omega, hle⟩
      | inr he => exact hw e (by simp [he])
  · rw [List.pairwise_append, List.pairwise_cons]
    refine ⟨hpw.1, ⟨hr.after ho, hpw.2.1⟩, ?_⟩
    intro a ha b hb
    cases List.mem_cons.mp hb with
    | inl heq => subst heq; exact hl.before ho a ha
    | inr hb => exact hpw.2.2 a ha b hb

end

end Merged

namespace IntervalTree

variable {checks : Bool} {t : IntervalTree T} {pre post : List (Range × NodeState T)}
  {k : Range} {st : NodeState T}

/-- The rest of `free`, once the key has been deleted or was not there. -/
theorem free_merge (checks : Bool) {t1 : IntervalTree T} {old : Option T} (ht1 : Tree.delete k t = .ok (old, t1))
    (ha1 : t1.Avl) (he1 : t1.entries = pre ++ post) (ho : Ordered (pre ++ (k, st) :: post)) :
    ∃ t' pre' post' lo top, free checks t k = .ok (old, t') ∧ LeftMerge k pre pre' lo ∧
      RightMerge k post post' top ∧ Inv t' ∧ t'.entries = pre' ++ (⟨lo, top⟩, .free) :: post' := by
  have hkw := ho.1 (k, st) (by simp)
  have hkmin : k.min ≤ u64Max := Nat.le_trans hkw.min_le_max hkw.max_le
  obtain ⟨pre', lo, hmin, hl⟩ := mergedMin_spec checks ho he1
  obtain ⟨post', top, hmax, hr⟩ := mergedMax_spec checks ho he1
  have ho1 : Ordered (pre ++ post) := ho.sublist (by simp)
  obtain ⟨t2, ht2, ha2, he2⟩ := deleteBelow_spec checks top ha1 (by rw [he1]; exact ho1) he1 hkmin hl
  have ho2 : Ordered t2.entries := by
    rw [he2]; exact ho1.sublist (List.Sublist.append hl.sublist (List.Sublist.refl _))
  obtain ⟨t3, ht3, ha3, he3⟩ := deleteAbove_spec checks lo ha2 ho2 he2 hr
  have hom := ordered_merged ho hl hr
  obtain ⟨t4, ht4, hrb4⟩ := Tree.insert_spec ⟨lo, top⟩ none ha3 he3 hom
  refine ⟨t4, pre', post', lo, top, ?_, hl, hr, ⟨hrb4.avl, by rw [hrb4.entries]; exact hom⟩,
    hrb4.entries⟩
  simp only [free, ht1, ok_bind, hmin, hmax, ht2, ht3, ht4]
  rfl

theorem free_spec (checks : Bool) (hi : Inv t) (he : t.entries = pre ++ (k, st) :: post) :
    ∃ t' pre' post' lo top, free checks t k = .ok (st.toOption, t') ∧ LeftMerge k pre pre' lo ∧
      RightMerge k post post' top ∧ Inv t' ∧ t'.entries = pre' ++ (⟨lo, top⟩, .free) :: post' := by
  have ho : Ordered (pre ++ (k, st) :: post) := he ▸ hi.ordered
  obtain ⟨t1, ht1, hrb1⟩ := Tree.delete_spec hi.avl hi.ordered he
  exact free_merge checks ht1 hrb1.avl hrb1.entries ho

end IntervalTree
end Kata.Allocator
