import Kata.Allocator.Undo

/-!
# Kata.Allocator.Pool

An interval tree as a pool of ids, for clients that call it with any arguments.

A `Tidy` tree is coalesced and manages ids below `u64::MAX` only. Then no `allocate` panics, and it
takes the lowest ids that fit the constraint out of the set of free ids (`Tidy.allocate`). A `free`
that returns keeps the tree tidy, also if its key is not stored (`free_freed`): it is refused, by a
panic, unless the key is apart from all others.

`Debt t0 live t` says that `t` differs from `t0` by the ranges in `live`, which are in use. They can
be freed in any order, and then the tree has the list of `t0` again (`Debt.settled`).
-/

namespace Kata.Allocator

open Lib

variable {T : Type}

/-! ## Freeing any key -/

section Any

variable {checks : Bool} {t t' : IntervalTree T} {key : Range} {data : Option T}

variable {k : Range}

theorem intersect_of_before (hk : k.Wf) (hkey : key.Wf) (h : k.Before key ∨ key.Before k) :
    k.intersect key = false := by
  rw [← Bool.not_eq_true, Range.intersect_iff hk hkey]
  tauto

theorem before_of_cmp (hk : k.Wf) (hkey : key.Wf) (hcmp : k.cmp key = .lt)
    (hint : k.intersect key = false) : k.Before key := by
  cases before_or_after hk hkey hint with
  | inl hb => exact hb
  | inr hb =>
    rw [Range.cmp_of_after hkey hb] at hcmp
    cases hcmp

theorem after_of_cmp (hk : k.Wf) (hkey : key.Wf) (hcmp : k.cmp key = .gt)
    (hint : k.intersect key = false) : key.Before k := by
  cases before_or_after hk hkey hint with
  | inl hb =>
    rw [Range.cmp_of_before hk hb] at hcmp
    cases hcmp
  | inr hb => exact hb

theorem before_trans {k k' : Range} (hk : k.Wf) (h : k'.Before k) (h' : k.Before key) : k'.Before key :=
  Nat.lt_trans h (Nat.lt_of_le_of_lt hk.min_le_max h')

theorem Tree.insert_disjoint (hkey : key.Wf) : ∀ {t t' : Tree T}, Ordered t.entries →
    t.insert key data = .ok t' → ∀ e ∈ t.entries, e.1.intersect key = false := by
  intro t
  induction t with
  | nil =>
    intro t' _ _ e he
    simp at he
  | node k d l r h m ihl ihr =>
    intro t' ho hins e he
    have hkw : k.Wf := ho.1 (k, d) (by simp)
    rw [entries_node] at ho he
    have hew : e.1.Wf := ho.1 e he
    simp only [List.mem_append, List.mem_cons] at he
    unfold insert at hins
    split at hins
    · cases hins
    · rename_i hcmp
      split at hins
      · cases hins
      · rename_i hint
        have hint := Bool.eq_false_of_not_eq_true hint
        obtain ⟨r', hr', _⟩ := bind_eq_ok.mp hins
        rcases he with he | rfl | he
        · have hbefore := before_of_cmp hkw hkey hcmp hint
          exact intersect_of_before hew hkey (.inl (before_trans hkw (ho.before_of_mem_left he) hbefore))
        · exact hint
        · exact ihr (ho.sublist (by simp)) hr' e he
    · rename_i hcmp
      split at hins
      · cases hins
      · rename_i hint
        have hint := Bool.eq_false_of_not_eq_true hint
        obtain ⟨l', hl', _⟩ := bind_eq_ok.mp hins
        rcases he with he | rfl | he
        · exact ihl (ho.sublist (by simp)) hl' e he
        · exact hint
        · have hafter := after_of_cmp hkw hkey hcmp hint
          exact intersect_of_before hew hkey (.inr (before_trans hkw hafter (ho.before_of_mem_right he)))

variable {old : Option T} {e : Range × NodeState T}

theorem delete_keeps (hi : t.Inv) (h : Tree.delete k t = .ok (old, t')) (he : e ∈ t.entries)
    (hne : e.1 ≠ k) : t'.Inv ∧ e ∈ t'.entries := by
  by_cases hex : ∃ st, (k, st) ∈ t.entries
  · obtain ⟨st, hmem⟩ := hex
    obtain ⟨pre, post, hes⟩ := List.append_of_mem hmem
    obtain ⟨t1, ht1, hrb⟩ := Tree.delete_spec hi.avl hi.ordered hes
    rw [ht1] at h
    cases h
    have ho := hi.ordered
    rw [hes] at he ho
    refine ⟨⟨hrb.avl, by rw [hrb.entries]; exact ho.sublist (by simp)⟩, ?_⟩
    rw [hrb.entries]
    have hneq : e ≠ (k, st) := fun heq => hne (congrArg Prod.fst heq)
    simpa [hneq] using he
  · have hmiss := Tree.delete_missing hi.avl fun (e : Range × NodeState T) he (hk : e.1 = k) => hex ⟨e.2, hk ▸ he⟩
    rw [hmiss] at h
    cases h
    exact ⟨hi, he⟩

theorem mergedMin_le {lo : Nat} (ho : Ordered t.entries) (h : IntervalTree.mergedMin checks t key = .ok lo) :
    lo ≤ key.min := by
  by_cases h0 : key.min > 0
  · rw [IntervalTree.mergedMin_eq h0] at h
    cases h
    cases hs : t.freeAt (key.min - 1) with
    | none => exact Nat.le_refl _
    | some r => exact Nat.le_trans ((IntervalTree.freeAt_eq_some ho).mp hs).2.1 (Nat.sub_le _ _)
  · cases (if_neg h0).symm.trans h
    exact Nat.le_refl _

theorem mergedMax_bounds {top : Nat} (ho : Ordered t.entries) (hkey : key.Wf)
    (h : IntervalTree.mergedMax checks t key = .ok top) : key.max ≤ top ∧ top ≤ u64Max := by
  by_cases h0 : key.max < u64Max
  · rw [IntervalTree.mergedMax_eq h0] at h
    cases h
    cases hs : t.freeAt (key.max + 1) with
    | none => exact ⟨Nat.le_refl _, hkey.max_le⟩
    | some r =>
      obtain ⟨hmem, hhas⟩ := (IntervalTree.freeAt_eq_some ho).mp hs
      exact ⟨Nat.le_of_succ_le hhas.2, (ho.1 _ hmem).max_le⟩
  · cases (if_neg h0).symm.trans h
    exact ⟨Nat.le_refl _, hkey.max_le⟩

theorem deleteBelow_keeps {range : Range} (hi : t.Inv)
    (h : IntervalTree.deleteBelow checks t range key = .ok t') (he : e ∈ t.entries)
    (hmeet : e.1.intersect key = true) : t'.Inv ∧ e ∈ t'.entries := by
  unfold IntervalTree.deleteBelow at h
  split at h
  · rename_i hlt
    rw [subU64_of_le (by omega), ok_bind] at h
    obtain ⟨k, hk, h⟩ := bind_eq_ok.mp h
    obtain ⟨⟨old, t1⟩, ht1, h⟩ := bind_eq_ok.mp h
    cases h
    obtain ⟨rfl, _, _⟩ := Range.of_new hk
    refine delete_keeps hi ht1 he ?_
    intro heq
    rw [heq] at hmeet
    simp only [Range.intersect, decide_eq_true_eq] at hmeet
    omega
  · cases h
    exact ⟨hi, he⟩

theorem deleteAbove_keeps {range : Range} (hi : t.Inv) (hmax : range.max ≤ u64Max)
    (h : IntervalTree.deleteAbove checks t range key = .ok t') (he : e ∈ t.entries)
    (hmeet : e.1.intersect key = true) : t'.Inv ∧ e ∈ t'.entries := by
  unfold IntervalTree.deleteAbove at h
  split at h
  · rename_i hlt
    rw [addU64_of_le (by omega), ok_bind] at h
    obtain ⟨k, hk, h⟩ := bind_eq_ok.mp h
    obtain ⟨⟨old, t1⟩, ht1, h⟩ := bind_eq_ok.mp h
    cases h
    obtain ⟨rfl, _, _⟩ := Range.of_new hk
    refine delete_keeps hi ht1 he ?_
    intro heq
    rw [heq] at hmeet
    simp only [Range.intersect, decide_eq_true_eq] at hmeet
    omega
  · cases h
    exact ⟨hi, he⟩

/-- A key that is not stored can be freed only if it is apart from all others: whatever it meets is
still there when the merged range is inserted. -/
theorem free_disjoint (hi : t.Inv) (hkey : key.Wf) (hmiss : ∀ e ∈ t.entries, e.1 ≠ key)
    (h : IntervalTree.free checks t key = .ok (old, t')) : ∀ e ∈ t.entries, e.1.intersect key = false := by
  intro e he
  refine Bool.eq_false_of_not_eq_true fun hmeet => ?_
  simp only [IntervalTree.free, Tree.delete_missing hi.avl hmiss, ok_bind] at h
  obtain ⟨lo, hlo, h⟩ := bind_eq_ok.mp h
  obtain ⟨top, htop, h⟩ := bind_eq_ok.mp h
  obtain ⟨t2, ht2, h⟩ := bind_eq_ok.mp h
  obtain ⟨t3, ht3, h⟩ := bind_eq_ok.mp h
  obtain ⟨t4, ht4, _⟩ := bind_eq_ok.mp h
  have hlole := mergedMin_le hi.ordered hlo
  obtain ⟨hletop, htople⟩ := mergedMax_bounds hi.ordered hkey htop
  obtain ⟨hi2, he2⟩ := deleteBelow_keeps hi ht2 he hmeet
  obtain ⟨hi3, he3⟩ := deleteAbove_keeps hi2 htople ht3 he2 hmeet
  have hle := hkey.min_le_max
  have hapart := Tree.insert_disjoint ⟨by simp only; omega, htople⟩ hi3.ordered ht4 e he3
  simp only [Range.intersect, decide_eq_true_eq, decide_eq_false_iff_not] at hmeet hapart
  omega

/-- What a `free` does that returns. -/
structure Freed (t : IntervalTree T) (key : Range) (t' : IntervalTree T) : Prop where
  inv : t'.Inv
  coalesced : Coalesced t.entries → Coalesced t'.entries
  managed : ∀ id, (idState t'.entries id).isSome = true →
    key.Has id ∨ (idState t.entries id).isSome = true
  busy : ∀ e, e.2 ≠ .free → (e ∈ t'.entries ↔ e ∈ t.entries ∧ e.1 ≠ key)

theorem free_freed_stored {st : NodeState T} (hi : t.Inv) (hmem : (key, st) ∈ t.entries)
    (h : IntervalTree.free checks t key = .ok (old, t')) : Freed t key t' := by
  obtain ⟨pre, post, he⟩ := List.append_of_mem hmem
  have ho : Ordered (pre ++ (key, st) :: post) := he ▸ hi.ordered
  obtain ⟨t1, pre', post', lo, top, ht1, hl, hr, hi', he'⟩ := IntervalTree.free_spec checks hi he
  rw [ht1] at h
  cases h
  refine ⟨hi', ?_, ?_, ?_⟩
  · intro hc
    rw [he']
    exact coalesced_merged ho (he ▸ hc) hl hr
  · intro id hid
    rw [he', idState_merged ho hl hr] at hid
    split at hid
    · exact .inl ‹_›
    · exact .inr (he ▸ hid)
  · intro e hne
    rw [he', he]
    exact busy_merged ho hl hr hne

/-- Ranges in use do not matter. -/
theorem coalesced_cut {pre post : List (Range × NodeState T)} (hc : Coalesced (pre ++ post)) :
    Coalesced (pre ++ (key, .allocated) :: post) := by
  have hold : ∀ e ∈ pre ++ (key, .allocated) :: post, e.2 = .free → e ∈ pre ++ post := by
    intro e hmem hf
    simp only [List.mem_append, List.mem_cons] at hmem ⊢
    rcases hmem with hmem | rfl | hmem
    · exact .inl hmem
    · cases hf
    · exact .inr hmem
  intro a ha b hb hfa hfb
  exact hc a (hold a ha hfa) b (hold b hb hfb) hfa hfb

/-- The key is apart from all others, as if it had been in use and just been deleted. -/
theorem free_freed_missing (hi : t.Inv) (hkey : key.Wf) (hmiss : ∀ e ∈ t.entries, e.1 ≠ key)
    (h : IntervalTree.free checks t key = .ok (old, t')) : Freed t key t' := by
  obtain ⟨pre, post, he, ho⟩ := Ordered.exists_cut (.allocated : NodeState T) hkey hi.ordered
    (free_disjoint hi hkey hmiss h)
  obtain ⟨t1, pre', post', lo, top, ht1, hl, hr, hi', he'⟩ :=
    IntervalTree.free_merge checks (Tree.delete_missing hi.avl hmiss) hi.avl he ho
  rw [ht1] at h
  cases h
  refine ⟨hi', ?_, ?_, ?_⟩
  · intro hc
    rw [he']
    exact coalesced_merged ho (coalesced_cut (he ▸ hc)) hl hr
  · intro id hid
    rw [he', idState_merged ho hl hr] at hid
    split at hid
    · exact .inl ‹_›
    · rename_i hnot
      rw [idState_append, idState_cons, if_neg hnot, ← idState_append] at hid
      exact .inr (he ▸ hid)
  · intro e hne
    rw [he', busy_merged ho hl hr hne, he]
    simp only [List.mem_append, List.mem_cons]
    constructor
    · rintro ⟨hmem | rfl | hmem, hk⟩
      · exact ⟨.inl hmem, hk⟩
      · exact absurd rfl hk
      · exact ⟨.inr hmem, hk⟩
    · rintro ⟨hmem | hmem, hk⟩
      · exact ⟨.inl hmem, hk⟩
      · exact ⟨.inr (.inr hmem), hk⟩

theorem free_freed (hi : t.Inv) (hkey : key.Wf)
    (h : IntervalTree.free checks t key = .ok (old, t')) : Freed t key t' := by
  by_cases hex : ∃ st, (key, st) ∈ t.entries
  · obtain ⟨st, hmem⟩ := hex
    exact free_freed_stored hi hmem h
  · exact free_freed_missing hi hkey (fun e he hk => hex ⟨e.2, hk ▸ he⟩) h

end Any

/-! ## Pools -/

/-- The ids that can be allocated. -/
def freeIds (t : IntervalTree T) : Set Nat := {id | idState t.entries id = some .free}

/-- The ids from `s` on are free and meet the constraint. -/
structure Fit (free : Set Nat) (c : Constraint) (s : Nat) : Prop where
  pos : 0 < (c.size : Nat)
  min_le : (c.min : Nat) ≤ s
  le_max : s + c.size ≤ c.max + 1
  aligned : Aligned c.align s
  free : ∀ i < (c.size : Nat), s + i ∈ free

/-- A coalesced tree, with ids between `lo` and `hi`. -/
structure Tidy (lo hi : Nat) (t : IntervalTree T) : Prop where
  inv : t.Inv
  coalesced : Coalesced t.entries
  within : ∀ id, (idState t.entries id).isSome = true → lo ≤ id ∧ id ≤ hi

section Tidy

variable {checks : Bool} {t t' : IntervalTree T} {lo hi : Nat} {c : Constraint} {s : Nat} {key : Range}

/-- Free ids in a row belong to one node. -/
theorem exists_node_of_row (hi : t.Inv) (hc : Coalesced t.entries) {n : Nat} (hrow : ∀ i < n + 1, s + i ∈ freeIds t) :
    ∃ k, (k, .free) ∈ t.entries ∧ k.min ≤ s ∧ s + n ≤ k.max := by
  induction n with
  | zero =>
    obtain ⟨k, hk, hid⟩ := mem_of_idState (hrow 0 (Nat.succ_pos _))
    exact ⟨k, hk, hid.1, hid.2⟩
  | succ n ih =>
    obtain ⟨k, hk, hmin, hmax⟩ := ih fun i hlt => hrow i (Nat.lt_succ_of_lt hlt)
    refine ⟨k, hk, hmin, ?_⟩
    by_contra hlast
    have hend : k.max = s + n := by omega
    have hnext := hrow (n + 1) (Nat.lt_succ_self _)
    have hno := hc.not_free_above hi.ordered hk
    rw [hend] at hno
    exact hno hnext

theorem fitsIn_iff (hi : t.Inv) (hc : Coalesced t.entries) (hsz : 0 < (c.size : Nat)) :
    IntervalTree.FitsIn t.entries c s ↔ Fit (freeIds t) c s := by
  constructor
  · rintro ⟨⟨k, st⟩, hmem, hfree, hfit⟩
    cases hfree
    refine ⟨hsz, hfit.cmin_le, hfit.le_cmax, hfit.aligned, ?_⟩
    intro i hlt
    have h1 := hfit.min_le
    have h2 := hfit.le_max
    exact idState_of_mem hi.ordered hmem ⟨by simp only at h1 ⊢; omega, by simp only at h2 ⊢; omega⟩
  · intro hfit
    obtain ⟨n, hn⟩ : ∃ n, (c.size : Nat) = n + 1 := ⟨c.size - 1, by omega⟩
    have hrow := hfit.free
    rw [hn] at hrow
    obtain ⟨k, hk, hmin, hmax⟩ := exists_node_of_row hi hc hrow
    exact ⟨(k, .free), hk, rfl, hmin, hfit.min_le, by simp only; omega, hfit.le_max, hfit.aligned⟩

theorem Tidy.noFull (h : Tidy lo hi t) (hhi : hi < u64Max) : ∀ e ∈ t.entries, e.1 ≠ Range.full := by
  intro e he hfull
  have hid : e.1.Has u64Max := by
    rw [hfull]
    exact ⟨Nat.zero_le _, Nat.le_refl _⟩
  have hsome : (idState t.entries u64Max).isSome = true := by
    rw [idState_of_mem h.inv.ordered he hid]
    rfl
  have hle := (h.within _ hsome).2
  omega

theorem Tidy.mono {lo' hi' : Nat} (h : Tidy lo hi t) (hlo : lo' ≤ lo) (hhi : hi ≤ hi') : Tidy lo' hi' t := by
  refine ⟨h.inv, h.coalesced, ?_⟩
  intro id hid
  have hin := h.within id hid
  omega

theorem tidy_insert_new (hkey : key.Wf) (h : IntervalTree.insert IntervalTree.new key none = .ok t') :
    Tidy key.min key.max (T := T) t' := by
  cases h
  refine ⟨⟨⟨trivial, trivial, rfl, by simp, by simp, by simp⟩, ?_⟩, ?_, ?_⟩
  · refine ⟨?_, List.pairwise_singleton _ _⟩
    intro e he
    rw [List.mem_singleton.mp he]
    exact hkey
  · intro a ha b hb _ _
    have hle := hkey.min_le_max
    rw [List.mem_singleton.mp ha, List.mem_singleton.mp hb]
    simp only
    omega
  · intro id hid
    obtain ⟨st, hst⟩ := Option.isSome_iff_exists.mp hid
    obtain ⟨k, hk, hin⟩ := mem_of_idState hst
    cases List.mem_singleton.mp hk
    exact hin

/-- New ids above all others, with a gap between. -/
theorem Tidy.insert (h : Tidy lo hi t) (hkey : key.Wf) (hlo : lo ≤ key.min) (hgap : hi + 1 < key.min)
    (hins : IntervalTree.insert t key none = .ok t') : Tidy lo key.max t' := by
  have hle := hkey.min_le_max
  have hdis := Tree.insert_disjoint hkey h.inv.ordered hins
  obtain ⟨t1, ht1, hi', hmem⟩ := IntervalTree.insert_inv none h.inv hkey hdis
  rw [ht1] at hins
  cases hins
  have hbelow : ∀ e ∈ t.entries, lo ≤ e.1.min ∧ e.1.min ≤ e.1.max ∧ e.1.max ≤ hi := by
    intro e he
    have hw := (h.inv.ordered.1 e he).min_le_max
    have hin : ∀ {id}, e.1.Has id → lo ≤ id ∧ id ≤ hi := by
      intro id hid
      refine h.within id ?_
      rw [idState_of_mem h.inv.ordered he hid]
      rfl
    exact ⟨(hin ⟨Nat.le_refl _, hw⟩).1, hw, (hin ⟨hw, Nat.le_refl _⟩).2⟩
  refine ⟨hi', ?_, ?_⟩
  · intro a ha b hb hfa hfb
    rcases (hmem a).mp ha with rfl | ha <;> rcases (hmem b).mp hb with rfl | hb
    · simp only
      omega
    · have hb := hbelow b hb
      simp only
      omega
    · have ha := hbelow a ha
      simp only
      omega
    · exact h.coalesced a ha b hb hfa hfb
  · intro id hid
    obtain ⟨st, hst⟩ := Option.isSome_iff_exists.mp hid
    obtain ⟨k, hk, hin⟩ := mem_of_idState hst
    rcases (hmem _).mp hk with heq | hk
    · cases heq
      exact ⟨Nat.le_trans hlo hin.1, hin.2⟩
    · obtain ⟨h1, h2⟩ := hin
      have hk := hbelow _ hk
      simp only at hk
      omega

/-- What `allocate` takes: the lowest ids that fit. -/
structure Taken (lo hi : Nat) (t : IntervalTree T) (c : Constraint) (s : Nat) (t' : IntervalTree T) :
    Prop where
  least : IsLeast {s | Fit (freeIds t) c s} s
  tidy : Tidy lo hi t'
  effect : AllocEffect t (IntervalTree.rangeAt c s) t'
  free : ∀ id, id ∈ freeIds t' ↔ id ∈ freeIds t ∧ ¬ (IntervalTree.rangeAt c s).Has id

theorem Tidy.allocate (checks : Bool) (h : Tidy lo hi t) (hhi : hi < u64Max) (c : Constraint) :
    (IntervalTree.allocate checks t c = .ok (none, t) ∧ ∀ s, ¬ Fit (freeIds t) c s) ∨
    ∃ s t', IntervalTree.allocate checks t c = .ok (some (IntervalTree.rangeAt c s), t') ∧
      Taken lo hi t c s t' := by
  have hfull := h.noFull hhi
  rcases IntervalTree.allocate_spec (c := c) checks h.inv fun e he hf => hfull e he hf.1 with
    ⟨hnone, hno⟩ | ⟨hsz, pre, k, post, m, he, hfit, hleast, hres⟩
  · refine .inl ⟨hnone, ?_⟩
    intro s hs
    cases hno with
    | inl h0 => exact absurd hs.pos (by omega)
    | inr hno => exact hno s ((fitsIn_iff h.inv h.coalesced hs.pos).mpr hs)
  · have ho : Ordered (pre ++ (k, .free) :: post) := he ▸ h.inv.ordered
    have hkmem : (k, .free) ∈ t.entries := by simp [he]
    have hkw : k.Wf := h.inv.ordered.1 _ hkmem
    have hkmax : k.max ≤ hi := by
      have hid : k.Has k.max := ⟨hkw.min_le_max, Nat.le_refl _⟩
      refine (h.within k.max ?_).2
      rw [idState_of_mem h.inv.ordered hkmem hid]
      rfl
    have hle := hfit.le_max
    rcases hres with ⟨t', ht', hi', he', _⟩ | ⟨_, hov, _⟩
    · have heff := allocEffect h.inv ht'
      refine .inr ⟨m, t', ht', ?_, ⟨hi', heff.coalesced h.coalesced, ?_⟩, heff, ?_⟩
      · have hset : {s | IntervalTree.FitsIn t.entries c s} = {s | Fit (freeIds t) c s} :=
          Set.ext fun s => fitsIn_iff h.inv h.coalesced hsz
        rw [← hset]
        exact hleast
      · intro id hid
        rw [heff.managed id] at hid
        exact h.within id hid
      · intro id
        have hrw : (IntervalTree.rangeAt c m).Wf := IntervalTree.rangeAt_wf hsz (by omega)
        have hin : (IntervalTree.rangeAt c m).max ≤ k.max := by
          simp only [IntervalTree.rangeAt]
          omega
        simp only [freeIds, Set.mem_ofPred_eq, he', he]
        rw [idState_carve ho hrw hfit.min_le hin]
        split
        · rename_i hid
          simp [hid]
        · rename_i hid
          simp [hid]
    · -- the end of the range is an id of the pool
      simp only [u64Max] at hhi
      cases hov with
      | inl h64 => omega
      | inr hk => exact absurd hk.1 (hfull _ hkmem)

theorem Tidy.update (h : Tidy lo hi t) {data : T} {old : Option T}
    (hu : t.update key data = .ok (old, t')) : Tidy lo hi t' := by
  obtain ⟨hi', hc', hm', _, _⟩ := updateEffect h.inv hu
  refine ⟨hi', hc' h.coalesced, ?_⟩
  intro id hid
  rw [hm' id] at hid
  exact h.within id hid

theorem freeIds_update (hi : t.Inv) {data : T} {old : Option T} (hb : Busy t key)
    (hu : t.update key data = .ok (old, t')) : freeIds t' = freeIds t := by
  obtain ⟨hi', _, hm', hkeep, hsame⟩ := updateEffect hi hu
  -- an id is free if it is managed and no entry in use has it
  have hused : ∀ id, (∀ e ∈ t'.entries, e.2 ≠ NodeState.free → ¬ e.1.Has id) ↔
      ∀ e ∈ t.entries, e.2 ≠ NodeState.free → ¬ e.1.Has id := by
    intro id
    constructor
    · intro h e he hne hid
      by_cases hk : e.1 = key
      · obtain ⟨st, hst, hmem⟩ := hkeep key hb
        exact h (key, st) hmem hst (hk ▸ hid)
      · exact h e ((hsame e hne hk).mpr he) hne hid
    · intro h e he hne hid
      by_cases hk : e.1 = key
      · obtain ⟨st, hst, hmem⟩ := hb
        exact h (key, st) hmem hst (hk ▸ hid)
      · exact h e ((hsame e hne hk).mp he) hne hid
  ext id
  simp only [freeIds, Set.mem_ofPred_eq]
  rw [idState_free_iff hi'.ordered, idState_free_iff hi.ordered, hused id, ← Option.isSome_iff_ne_none,
    ← Option.isSome_iff_ne_none, hm' id]

theorem Tidy.freed (h : Tidy lo hi t) (hlo : lo ≤ key.min) (hhi : key.max ≤ hi) (hf : Freed t key t') :
    Tidy lo hi t' := by
  refine ⟨hf.inv, hf.coalesced h.coalesced, ?_⟩
  intro id hid
  cases hf.managed id hid with
  | inl hkey =>
    have h1 := hkey.1
    have h2 := hkey.2
    omega
  | inr hold => exact h.within id hold

end Tidy

/-! ## Debts -/

/-- `t` has the ids of `t0`, and apart from the ranges in `live`, which are new, the same is in use. -/
structure Debt (t0 : IntervalTree T) (live : Set Range) (t : IntervalTree T) : Prop where
  same : SameIds t0 t
  busy : ∀ k ∈ live, Busy t k
  new : ∀ k ∈ live, ¬ Busy t0 k
  rest : ∀ e, e.2 ≠ .free → e.1 ∉ live → (e ∈ t.entries ↔ e ∈ t0.entries)

section Debt

variable {checks : Bool} {t0 t t' : IntervalTree T} {live : Set Range} {key : Range}

theorem Debt.nothing (hi : t0.Inv) (hc : Coalesced t0.entries) : Debt t0 ∅ t0 :=
  ⟨⟨hi, hc, fun _ => rfl⟩, nofun, nofun, fun _ _ _ => Iff.rfl⟩

theorem Debt.allocate (h : Debt t0 live t) (he : AllocEffect t key t') :
    key ∉ live ∧ Debt t0 (insert key live) t' := by
  have hkey : key ∉ live := fun hmem => he.fresh (h.busy key hmem)
  have hnew : ¬ Busy t0 key := by
    rintro ⟨st, hst, hmem⟩
    exact he.fresh ⟨st, hst, (h.rest (key, st) hst hkey).mpr hmem⟩
  refine ⟨hkey, ⟨he.inv, he.coalesced h.same.coalesced,
    fun id => (he.managed id).trans (h.same.managed id)⟩, ?_, ?_, ?_⟩
  · intro k hk
    cases hk with
    | inl heq => exact heq ▸ ⟨.allocated, by simp, (he.busy _ (by simp)).mpr (.inr rfl)⟩
    | inr hk =>
      obtain ⟨st, hst, hmem⟩ := h.busy k hk
      exact ⟨st, hst, (he.busy _ hst).mpr (.inl hmem)⟩
  · intro k hk
    cases hk with
    | inl heq => exact heq ▸ hnew
    | inr hk => exact h.new k hk
  · intro e hne hlive
    rw [Set.mem_insert_iff, not_or] at hlive
    have hek : e ≠ (key, .allocated) := fun heq => hlive.1 (congrArg Prod.fst heq)
    rw [he.busy e hne, h.rest e hne hlive.2]
    simp [hek]

theorem Debt.update (h : Debt t0 live t) {data : T} {old : Option T} (hkey : key ∈ live)
    (hu : t.update key data = .ok (old, t')) : Debt t0 live t' := by
  obtain ⟨hi', hc', hm', hkeep, hsame⟩ := updateEffect h.same.inv hu
  refine ⟨⟨hi', hc' h.same.coalesced, fun id => (hm' id).trans (h.same.managed id)⟩,
    fun k hk => hkeep k (h.busy k hk), h.new, ?_⟩
  intro e hne hlive
  have hek : e.1 ≠ key := fun heq => hlive (heq ▸ hkey)
  rw [hsame e hne hek, h.rest e hne hlive]

theorem Debt.free (checks : Bool) (h : Debt t0 live t) (hkey : key ∈ live) :
    ∃ old t', IntervalTree.free checks t key = .ok (old, t') ∧ Debt t0 (live \ {key}) t' := by
  obtain ⟨old, t', ht', hi', hc', hm', hbusy⟩ := freeEffect checks h.same.inv (h.busy key hkey)
  refine ⟨old, t', ht', ⟨hi', hc' h.same.coalesced, fun id => (hm' id).trans (h.same.managed id)⟩,
    ?_, fun k hk => h.new k hk.1, ?_⟩
  · rintro k ⟨hk, hne⟩
    obtain ⟨st, hst, hmem⟩ := h.busy k hk
    exact ⟨st, hst, (hbusy _ hst).mpr ⟨hmem, hne⟩⟩
  · intro e hne hlive
    rw [hbusy e hne]
    by_cases hek : e.1 = key
    · constructor
      · exact fun hm => absurd hek hm.2
      · exact fun hm => absurd ⟨e.2, hne, hek ▸ hm⟩ (h.new key hkey)
    · have hnl : e.1 ∉ live := fun hmem => hlive ⟨hmem, hek⟩
      rw [h.rest e hne hnl]
      exact ⟨And.left, fun hm => ⟨hm, hek⟩⟩

theorem Debt.settled (h : Debt t0 ∅ t) (hi : t0.Inv) (hc : Coalesced t0.entries) : t.entries = t0.entries :=
  h.same.entries_eq hi hc fun e hne => h.rest e hne (Set.notMem_empty _)

end Debt
end Kata.Allocator
