import Kata.Allocator.Calls

/-!
# Kata.Allocator.Boundary

The top of the id space: when `allocate` and `free` overflow, or make the range of all ids.

A client inserts disjoint ranges that `Range::new` accepts, allocates, and frees what it was given.
Two calls go wrong. `allocate` computes `aligned_key.min + constraint.size - 1` from the left, so
the lowest fit must not end at `u64::MAX`. `free` assigns the ends of the merged range directly, so
a freed range whose free neighbours reach both ends of the id space becomes the range `[0,
u64::MAX]`, on which later calls of `Range::new` and `Range::len` panic. `Within` excludes these two
calls, and `boundary_calls_iff` shows that it excludes no other.
-/

namespace Kata.Allocator

open Lib

variable {T : Type}

/-- A tree, and the ranges that `allocate` has returned and that have not been freed. -/
structure Client (T : Type) where
  tree : IntervalTree T
  outstanding : List Range

def Client.new : Client T := { tree := IntervalTree.new, outstanding := [] }

inductive ClientOp (T : Type) where
  | insert (key : Range) (data : Option T)
  | allocate (c : Constraint)
  | free (key : Range)

namespace ClientOp

def Legal (s : Client T) : ClientOp T → Prop
  | .insert key _ => key.max ≤ u64Max ∧ Range.new key.min key.max = .ok key ∧
      ∀ e ∈ s.tree.entries, e.1.intersect key = false
  | .allocate _ => True
  | .free key => key ∈ s.outstanding

/-- The calls, with `overflow-checks` on: an overflow is a panic. -/
def apply (s : Client T) : ClientOp T → Except Panic (Client T)
  | .insert key data => do return { s with tree := ← s.tree.insert key data }
  | .allocate c => do
    match ← IntervalTree.allocate true s.tree c with
    | (none, t) => return { s with tree := t }
    | (some r, t) => return { tree := t, outstanding := r :: s.outstanding }
  | .free key => do
    let (_, t) ← IntervalTree.free true s.tree key
    return { tree := t, outstanding := s.outstanding.erase key }

def Within (s : Client T) : ClientOp T → Prop
  | .insert _ _ => True
  | .allocate c => ¬ (0 < (c.size : Nat) ∧
      ∃ m, IsLeast {m | IntervalTree.FitsIn s.tree.entries c m} m ∧ m + c.size = 2 ^ 64)
  | .free key => ¬ ((key.min = 0 ∨ (⟨0, key.min - 1⟩, .free) ∈ s.tree.entries) ∧
      (key.max = u64Max ∨ (⟨key.max + 1, u64Max⟩, .free) ∈ s.tree.entries))

end ClientOp

def Client.Step (s : Client T) (op : ClientOp T) (s' : Client T) : Prop :=
  op.Legal s ∧ op.apply s = .ok s'

def Client.StepWithin (s : Client T) (op : ClientOp T) (s' : Client T) : Prop :=
  op.Legal s ∧ op.Within s ∧ op.apply s = .ok s'

/-- No node has the key `[0, u64::MAX]`. -/
def NoFull (t : IntervalTree T) : Prop := ∀ e ∈ t.entries, e.1 ≠ Range.full

structure Client.Inv (s : Client T) : Prop where
  tree : s.tree.Inv
  stored : ∀ r ∈ s.outstanding, (r, .allocated) ∈ s.tree.entries
  nodup : s.outstanding.Nodup
  noFull : NoFull s.tree

/-! ## The ends of the merged range -/

section Ends

variable {pre post pre' post' : List (Range × NodeState T)} {k : Range} {st : NodeState T}
  {lo hi : Nat}

theorem LeftMerge.eq_zero_iff (ho : Ordered (pre ++ (k, st) :: post)) (h : LeftMerge k pre pre' lo) :
    lo = 0 ↔ k.min = 0 ∨ (⟨0, k.min - 1⟩, .free) ∈ pre ++ (k, st) :: post := by
  have hk : k.min ≤ k.max := (ho.1 (k, st) (by simp)).min_le_max
  cases h with
  | keep hno =>
    constructor
    · exact .inl
    · intro h
      cases h with
      | inl h0 => exact h0
      | inr hmem =>
        by_contra h0
        simp only [List.mem_append, List.mem_cons] at hmem
        rcases hmem with hmem | hmem | hmem
        · exact hno _ hmem (by simp only; omega) rfl
        · have hkk : k = ⟨0, k.min - 1⟩ := (congrArg Prod.fst hmem).symm
          exact h0 (by rw [hkk])
        · exact absurd (ho.before_of_mem_right hmem) (Nat.not_lt_zero _)
  | join hlt =>
    constructor
    · intro h0
      subst h0
      exact .inr (by simp)
    · intro h
      cases h with
      | inl h0 => omega
      | inr hmem =>
        have hid : (⟨lo, k.min - 1⟩ : Range).Has (k.min - 1) := ⟨by simp only; omega, Nat.le_refl _⟩
        have heq := ho.eq_of_has (e := (⟨lo, k.min - 1⟩, .free)) (by simp) hmem hid
          ⟨Nat.zero_le _, Nat.le_refl _⟩
        simp only [Prod.mk.injEq, Range.mk.injEq, and_true] at heq
        exact heq

theorem RightMerge.eq_max_iff (ho : Ordered (pre ++ (k, st) :: post)) (h : RightMerge k post post' hi) :
    hi = u64Max ↔ k.max = u64Max ∨ (⟨k.max + 1, u64Max⟩, .free) ∈ pre ++ (k, st) :: post := by
  have hkw := ho.1 (k, st) (by simp)
  have hk : k.min ≤ k.max := hkw.min_le_max
  have hkmax : k.max ≤ u64Max := hkw.max_le
  cases h with
  | keep hno =>
    constructor
    · exact .inl
    · intro h
      cases h with
      | inl h0 => exact h0
      | inr hmem =>
        by_contra h0
        simp only [List.mem_append, List.mem_cons] at hmem
        rcases hmem with hmem | hmem | hmem
        · have hb : u64Max < k.min := ho.before_of_mem_left hmem
          omega
        · have hkk : k = ⟨k.max + 1, u64Max⟩ := (congrArg Prod.fst hmem).symm
          exact h0 (by rw [hkk])
        · exact hno _ hmem rfl rfl
  | join hlt =>
    constructor
    · intro h0
      subst h0
      exact .inr (by simp)
    · intro h
      cases h with
      | inl h0 =>
        have hle : hi ≤ u64Max := (ho.1 (⟨k.max + 1, hi⟩, .free) (by simp)).max_le
        omega
      | inr hmem =>
        have hw : k.max + 1 ≤ u64Max := (ho.1 _ hmem).min_le_max
        have hid : (⟨k.max + 1, hi⟩ : Range).Has (k.max + 1) := ⟨Nat.le_refl _, hlt⟩
        have heq := ho.eq_of_has (e := (⟨k.max + 1, hi⟩, .free)) (by simp) hmem hid
          ⟨Nat.le_refl _, hw⟩
        simp only [Prod.mk.injEq, Range.mk.injEq, and_true, true_and] at heq
        exact heq

end Ends

/-! ## One call -/

section Step

variable {s : Client T}

theorem Client.insert_spec {key : Range} {data : Option T} (hs : s.Inv) (hl : (ClientOp.insert key data).Legal s) :
    ∃ s', (ClientOp.insert key data).apply s = .ok s' ∧ s'.Inv := by
  obtain ⟨hmax, hnew, hdis⟩ := hl
  obtain ⟨_, hle, hne⟩ := Range.of_new hnew
  obtain ⟨t', ht', hi', hmem⟩ := IntervalTree.insert_inv data hs.tree ⟨hle, hmax⟩ hdis
  refine ⟨{ s with tree := t' }, by simp [ClientOp.apply, ht'], hi', ?_, hs.nodup, ?_⟩
  · intro r hr
    exact (hmem _).mpr (.inr (hs.stored r hr))
  · intro e he
    cases (hmem e).mp he with
    | inl heq => rw [heq]; exact hne
    | inr hold => exact hs.noFull e hold

/-- What is cut out of a key other than the full one is not the full one either. -/
theorem noFull_carve {pre post : List (Range × NodeState T)} {k r : Range} {st st' : NodeState T}
    (hno : ∀ e ∈ pre ++ (k, st) :: post, e.1 ≠ Range.full) (hw : k.Wf) (hr : r.Wf)
    (h1 : k.min ≤ r.min) (h2 : r.max ≤ k.max) : ∀ e ∈ pre ++ (carve k r st' ++ post), e.1 ≠ Range.full := by
  intro e he hfull
  simp only [List.mem_append] at he
  rcases he with he | he | he
  · exact hno e (by simp [he]) hfull
  · obtain ⟨h3, h4⟩ := carve_inside hr h1 h2 e he
    have hmin : e.1.min = 0 := by rw [hfull]; rfl
    have hmax : e.1.max = u64Max := by rw [hfull]; rfl
    have hle := hw.max_le
    refine Range.ne_full_iff.mp (hno (k, st) (by simp)) ⟨?_, ?_⟩
    · simp only; omega
    · simp only; omega
  · exact hno e (by simp [he]) hfull

theorem Client.allocate_spec {c : Constraint} (hs : s.Inv) :
    ((ClientOp.allocate c).Within s ∧ ∃ s', (ClientOp.allocate c).apply s = .ok s' ∧ s'.Inv) ∨
      (¬ (ClientOp.allocate c).Within s ∧ (ClientOp.allocate c).apply s = .error .overflow) := by
  have hne : ∀ e ∈ s.tree.entries, ¬ AdmitsFull c e.1 :=
    fun e he h => hs.noFull e he h.1
  rcases IntervalTree.allocate_spec (c := c) true hs.tree hne with
    ⟨hn, hno⟩ | ⟨hsz, pre, k, post, m, he, hfit, hleast, hres⟩
  · refine .inl ⟨?_, s, by simp [ClientOp.apply, hn], hs⟩
    intro hw
    obtain ⟨hpos, m, hm, _⟩ := hw
    cases hno with
    | inl h0 => omega
    | inr hno => exact hno m hm.1
  · have ho : Ordered (pre ++ (k, .free) :: post) := he ▸ hs.tree.ordered
    have hkw : k.Wf := ho.1 (k, .free) (by simp)
    have hkfull : k ≠ Range.full := hs.noFull (k, .free) (by simp [he])
    have hle := hfit.le_max
    have hkmax := hkw.max_le
    have hrw : (IntervalTree.rangeAt c m).Wf := IntervalTree.rangeAt_wf hsz (by omega)
    have hin : (IntervalTree.rangeAt c m).max ≤ k.max := by
      simp only [IntervalTree.rangeAt]; omega
    rcases hres with ⟨t', ht', hi', he', hov⟩ | ⟨_, hov, herr⟩
    · -- the new range was free before, so it is not outstanding yet
      have hfresh : IntervalTree.rangeAt c m ∉ s.outstanding := by
        intro hout
        have hmem := hs.stored _ hout
        have hkmem : (k, .free) ∈ s.tree.entries := by simp [he]
        have hid : k.Has m := ⟨hfit.min_le, by omega⟩
        have heq := hs.tree.ordered.eq_of_has hmem hkmem ⟨Nat.le_refl _, hrw.min_le_max⟩ hid
        cases congrArg Prod.snd heq
      refine .inl ⟨?_, { tree := t', outstanding := IntervalTree.rangeAt c m :: s.outstanding },
        by simp [ClientOp.apply, ht'], hi', ?_, List.nodup_cons.mpr ⟨hfresh, hs.nodup⟩, ?_⟩
      · intro hw
        obtain ⟨_, m', hm', h64⟩ := hw
        rw [hm'.unique hleast] at h64
        exact hov rfl h64
      · intro r hr
        simp only [he']
        have hbusy : ((r, .allocated) : Range × NodeState T).2 ≠ .free := by simp
        rw [busy_carve hbusy]
        cases List.mem_cons.mp hr with
        | inl heq => exact .inr (by rw [heq])
        | inr hr => exact .inl (he ▸ hs.stored r hr)
      · intro e hmem
        simp only [he'] at hmem
        have hno : ∀ e ∈ pre ++ (k, .free) :: post, e.1 ≠ Range.full := by
          intro e hmem
          exact hs.noFull e (by rw [he]; exact hmem)
        exact noFull_carve hno hkw hrw hfit.min_le hin e hmem
    · refine .inr ⟨?_, by simp [ClientOp.apply, herr]⟩
      cases hov with
      | inl h64 => exact fun hw => hw ⟨hsz, m, hleast, h64⟩
      | inr hfull => exact absurd hfull.1 hkfull

theorem Client.free_spec {key : Range} (hs : s.Inv) (hl : (ClientOp.free key : ClientOp T).Legal s) :
    ∃ s', (ClientOp.free key).apply s = .ok s' ∧
      ((ClientOp.free key).Within s ∧ s'.Inv ∨ ¬ (ClientOp.free key).Within s ∧ ¬ NoFull s'.tree) := by
  have hmem := hs.stored key hl
  obtain ⟨pre, post, he⟩ := List.append_of_mem hmem
  have ho : Ordered (pre ++ (key, .allocated) :: post) := he ▸ hs.tree.ordered
  obtain ⟨t', pre', post', lo, hi, ht', hlm, hrm, hi', he'⟩ :=
    IntervalTree.free_spec true hs.tree he
  refine ⟨{ tree := t', outstanding := s.outstanding.erase key }, by simp [ClientOp.apply, ht'], ?_⟩
  have hends : (ClientOp.free key).Within s ↔ ¬ (lo = 0 ∧ hi = u64Max) := by
    rw [hlm.eq_zero_iff ho, hrm.eq_max_iff ho, ← he]
    rfl
  by_cases hfull : lo = 0 ∧ hi = u64Max
  · refine .inr ⟨fun hw => hends.mp hw hfull, ?_⟩
    intro hno
    obtain ⟨rfl, rfl⟩ := hfull
    exact hno (⟨0, u64Max⟩, .free) (by simp [he']) rfl
  · refine .inl ⟨hends.mpr hfull, hi', ?_, hs.nodup.erase key, ?_⟩
    · intro r hr
      have hr' := (List.Nodup.mem_erase_iff hs.nodup).mp hr
      simp only [he']
      have hbusy := busy_merged ho hlm hrm (e := (r, .allocated)) (by simp)
      rw [hbusy, ← he]
      exact ⟨hs.stored r hr'.2, hr'.1⟩
    · intro e hmem'
      simp only [he', List.mem_append, List.mem_cons] at hmem'
      rcases hmem' with hm | rfl | hm
      · exact hs.noFull e (by rw [he]; simp [hlm.sublist.subset hm])
      · exact Range.ne_full_iff.mpr hfull
      · exact hs.noFull e (by rw [he]; simp [hrm.sublist.subset hm])

/-- A legal call goes well exactly when it stays within the bounds. -/
theorem Client.apply_spec {op : ClientOp T} (hs : s.Inv) (hl : op.Legal s) :
    (op.Within s ∧ ∃ s', op.apply s = .ok s' ∧ s'.Inv) ∨
      (¬ op.Within s ∧ ∀ s', op.apply s = .ok s' → ¬ NoFull s'.tree) := by
  cases op with
  | insert key data => exact .inl ⟨trivial, Client.insert_spec hs hl⟩
  | allocate c =>
    cases Client.allocate_spec (c := c) hs with
    | inl h => exact .inl h
    | inr h =>
      refine .inr ⟨h.1, ?_⟩
      intro s' hs'
      rw [h.2] at hs'
      cases hs'
  | free key =>
    obtain ⟨s', ha, h⟩ := Client.free_spec hs hl
    cases h with
    | inl h => exact .inl ⟨h.1, s', ha, h.2⟩
    | inr h =>
      refine .inr ⟨h.1, ?_⟩
      intro s1 hs1
      rw [ha] at hs1
      cases hs1
      exact h.2

end Step

theorem Client.inv_new : (Client.new : Client T).Inv :=
  ⟨IntervalTree.inv_new, by simp [Client.new], by simp [Client.new],
    by simp [NoFull, Client.new, IntervalTree.new]⟩

theorem Client.StepWithin.inv {s s' : Client T} {op : ClientOp T} (hs : s.Inv)
    (h : Client.StepWithin s op s') : s'.Inv := by
  obtain ⟨hl, hw, ha⟩ := h
  cases Client.apply_spec hs hl with
  | inl hok =>
    obtain ⟨_, s1, h1, hi1⟩ := hok
    rw [h1] at ha
    cases ha
    exact hi1
  | inr hbad => exact absurd hw hbad.1

/-- In every run of legal calls that stay within the bounds no node is the full range, and the next
legal call completes without making one exactly when it stays within the bounds too. -/
theorem boundary_calls_iff {ops : List (ClientOp T)} {s : Client T} (h : Run Client.StepWithin Client.new ops s) :
    NoFull s.tree ∧ ∀ op : ClientOp T, op.Legal s →
      ((∃ s', op.apply s = .ok s' ∧ NoFull s'.tree) ↔ op.Within s) := by
  have hs : s.Inv := h.invariant (fun _ _ _ hi hstep => hstep.inv hi) Client.inv_new
  refine ⟨hs.noFull, ?_⟩
  intro op hl
  cases Client.apply_spec hs hl with
  | inl hok =>
    obtain ⟨hw, s', ha, hi'⟩ := hok
    exact ⟨fun _ => hw, fun _ => ⟨s', ha, hi'.noFull⟩⟩
  | inr hbad =>
    obtain ⟨hw, hno⟩ := hbad
    refine ⟨?_, fun h => absurd h hw⟩
    intro hgood
    obtain ⟨s', ha, hnf⟩ := hgood
    exact absurd hnf (hno s' ha)

theorem boundary_calls_iff_high : NoFull (.node ⟨5, u64Max⟩ .free .nil .nil 1 u64Max : IntervalTree Nat) := by
  suffices hrun : Run Client.StepWithin (Client.new : Client Nat)
      [.insert ⟨5, u64Max⟩ none, .allocate (.new 10), .free ⟨5, 14⟩]
      { tree := .node ⟨5, u64Max⟩ .free .nil .nil 1 u64Max, outstanding := [] } from
    (boundary_calls_iff hrun).1
  refine .cons ⟨⟨by decide, by rfl, by decide⟩, trivial, rfl⟩ ?_
  refine .cons ⟨trivial, ?_, rfl⟩ ?_
  · intro h
    obtain ⟨_, m, hm, h64⟩ := h
    have hle : m ≤ 5 := hm.2 ⟨(⟨5, u64Max⟩, .free), by decide, rfl, by decide, by decide, by decide,
      by decide, by decide⟩
    have h10 : m + 10 = 2 ^ 64 := h64
    omega
  · exact .cons ⟨by unfold ClientOp.Legal; decide, by unfold ClientOp.Within; decide, rfl⟩ .nil

/-- The last fit of a range that ends at `u64::MAX` overflows; and two adjacent ranges that cover
the id space merge into the full range, on which the next call of `allocate` panics. -/
theorem boundary_panics :
    (∃ s : Client Nat, Run Client.Step Client.new [.insert ⟨5, u64Max⟩ none] s ∧
      (ClientOp.allocate (.new ⟨u64Max - 4, by decide⟩)).apply s = .error .overflow) ∧
    (∃ s : Client Nat, Run Client.Step Client.new
        [.insert ⟨0, 9⟩ none, .insert ⟨10, u64Max⟩ none, .allocate (.new 10), .free ⟨0, 9⟩] s ∧
      (Range.full, .free) ∈ s.tree.entries ∧
      (ClientOp.allocate (.new 1)).apply s = .error (.invalidRange 0 u64Max)) := by
  constructor
  · exact ⟨_, .cons ⟨⟨by decide, by rfl, by decide⟩, rfl⟩ .nil, rfl⟩
  · refine ⟨_, .cons ⟨⟨by decide, by rfl, by decide⟩, rfl⟩ (.cons ⟨⟨by decide, by rfl, by decide⟩, rfl⟩
      (.cons ⟨trivial, rfl⟩ (.cons ⟨by unfold ClientOp.Legal; decide, rfl⟩ .nil))), ?_, rfl⟩
    decide

end Kata.Allocator
