import Kata.Allocator.Ids
import Kata.Lib.Runs

/-!
# Kata.Allocator.Calls

Sequences of calls on an interval tree, and what holds after every call.

`Op.Pre` is what the documentation asks of a caller. `Op.apply_spec` is the step lemma: a call made
as documented keeps the representation invariant and does not panic, except for `allocate`, which
can fail in its id arithmetic. `representation_invariant` is the statement about whole runs, and
`allocate_lowest_first` says what `allocate` returns and what it does to every id.
-/

namespace Kata.Allocator

variable {T : Type}

inductive Op (T : Type) where
  | insert (key : Range) (data : Option T)
  | update (key : Range) (data : T)
  | delete (key : Range)
  | allocate (c : Constraint)
  | free (key : Range)

namespace Op

def apply (checks : Bool) (t : IntervalTree T) : Op T → Except Panic (IntervalTree T)
  | .insert key data => t.insert key data
  | .update key data => do return (← t.update key data).2
  | .delete key => do return (← t.delete key).2
  | .allocate c => do return (← IntervalTree.allocate checks t c).2
  | .free key => do return (← IntervalTree.free checks t key).2

def Pre (t : IntervalTree T) : Op T → Prop
  | .insert key _ => key.Wf ∧ ∀ e ∈ t.entries, e.1.intersect key = false
  | .update key _ => (key, .free) ∉ t.entries
  | .delete _ => True
  | .allocate _ => True
  | .free key => ∃ st, st ≠ .free ∧ (key, st) ∈ t.entries

end Op

/-- A call that meets its precondition and returns. -/
def Call (checks : Bool) (t : IntervalTree T) (op : Op T) (t' : IntervalTree T) : Prop :=
  op.Pre t ∧ op.apply checks t = .ok t'

/-! ## One call -/

section Cut

variable {es : List (Range × NodeState T)} {key : Range} {st : NodeState T}

theorem before_or_after {k : Range} (hk : k.Wf) (hkey : key.Wf) (h : k.intersect key = false) :
    k.Before key ∨ key.Before k := by
  have hiff := Range.intersect_iff hk hkey
  rw [h] at hiff
  simp only [Bool.false_eq_true, false_iff] at hiff
  tauto

/-- A key disjoint from all the others has its place among them. -/
theorem Ordered.exists_cut (st : NodeState T) (hkey : key.Wf) : Ordered es → (∀ e ∈ es, e.1.intersect key = false) →
    ∃ pre post, es = pre ++ post ∧ Ordered (pre ++ (key, st) :: post) := by
  induction es with
  | nil =>
    intro _ _
    exact ⟨[], [], rfl, by simpa [Ordered] using hkey⟩
  | cons e es ih =>
    intro ho hdis
    have hew := ho.1 e (by simp)
    have hafter : ∀ b ∈ es, e.1.max < b.1.min := (List.pairwise_cons.mp ho.2).1
    cases before_or_after hew hkey (hdis e (by simp)) with
    | inl hb =>
      obtain ⟨pre, post, hes, ho'⟩ := ih (ho.sublist (by simp)) (fun b hb => hdis b (by simp [hb]))
      refine ⟨e :: pre, post, by simp [hes], ?_, ?_⟩
      · intro x hx
        rw [List.cons_append, List.mem_cons] at hx
        cases hx with
        | inl hx => rw [hx]; exact hew
        | inr hx => exact ho'.1 x hx
      · rw [List.cons_append, List.pairwise_cons]
        refine ⟨?_, ho'.2⟩
        intro x hx
        simp only [List.mem_append, List.mem_cons] at hx
        rcases hx with hx | rfl | hx
        · exact hafter x (by simp [hes, hx])
        · exact hb
        · exact hafter x (by simp [hes, hx])
    | inr hb =>
      refine ⟨[], e :: es, rfl, ?_, ?_⟩
      · intro x hx
        rw [List.nil_append, List.mem_cons] at hx
        cases hx with
        | inl hx => rw [hx]; exact hkey
        | inr hx => exact ho.1 x hx
      · rw [List.nil_append, List.pairwise_cons]
        refine ⟨?_, ho.2⟩
        intro x hx
        have hlt : key.max < e.1.min := hb
        cases List.mem_cons.mp hx with
        | inl hx => rw [hx]; exact hb
        | inr hx =>
          have h1 := hafter x hx
          have h2 := hew.min_le_max
          show key.max < x.1.min
          omega

end Cut

namespace IntervalTree

variable {t : IntervalTree T} {key : Range} {st : NodeState T}

theorem insert_inv (data : Option T) (hi : Inv t) (hkey : key.Wf)
    (hdis : ∀ e ∈ t.entries, e.1.intersect key = false) :
    ∃ t', t.insert key data = .ok t' ∧ Inv t' ∧
      ∀ e, e ∈ t'.entries ↔ e = (key, .ofOption data) ∨ e ∈ t.entries := by
  obtain ⟨pre, post, he, ho⟩ := Ordered.exists_cut (.ofOption data) hkey hi.ordered hdis
  obtain ⟨t', ht', hrb⟩ := Tree.insert_spec key data hi.avl he ho
  refine ⟨t', ht', ⟨hrb.avl, by rw [hrb.entries]; exact ho⟩, ?_⟩
  intro e
  rw [hrb.entries, he]
  simp only [List.mem_append, List.mem_cons]
  tauto

theorem update_inv (data : T) (hi : Inv t) (hkey : (key, .free) ∉ t.entries) :
    ∃ old t', t.update key data = .ok (old, t') ∧ Inv t' := by
  by_cases h : ∃ st, (key, st) ∈ t.entries
  · obtain ⟨st, hmem⟩ := h
    have hst : Tree.updateRefused st (.valued data) = false := by
      cases st with
      | free => exact absurd hmem hkey
      | allocated | valued v => rfl
    obtain ⟨pre, post, he⟩ := List.append_of_mem hmem
    obtain ⟨t', ht', ha', _, _, he'⟩ := Tree.update_spec _ hst hi.avl hi.ordered he
    refine ⟨st.toOption, t', ht', ha', ?_⟩
    have ho := hi.ordered
    rw [he] at ho
    rw [he']
    exact ho.set _
  · refine ⟨none, t, Tree.update_missing ?_, hi⟩
    intro e he hk
    exact h ⟨e.2, by rw [← hk]; exact he⟩

theorem delete_inv (hi : Inv t) (key : Range) : ∃ old t', t.delete key = .ok (old, t') ∧ Inv t' := by
  by_cases h : ∃ st, (key, st) ∈ t.entries
  · obtain ⟨st, hmem⟩ := h
    obtain ⟨pre, post, he⟩ := List.append_of_mem hmem
    obtain ⟨t', ht', hrb⟩ := Tree.delete_spec hi.avl hi.ordered he
    refine ⟨st.toOption, t', ht', hrb.avl, ?_⟩
    have ho := hi.ordered
    rw [he] at ho
    rw [hrb.entries]
    exact ho.sublist (by simp)
  · refine ⟨none, t, Tree.delete_missing hi.avl ?_, hi⟩
    intro e he hk
    exact h ⟨e.2, by rw [← hk]; exact he⟩

end IntervalTree

/-- Every call made as documented keeps the invariant; the only panics are those of the id
arithmetic of `allocate`. -/
theorem Op.apply_spec (checks : Bool) {t : IntervalTree T} {op : Op T} (hi : t.Inv) (hp : op.Pre t) :
    (∃ t', op.apply checks t = .ok t' ∧ t'.Inv) ∨
      ∃ c p, op = .allocate c ∧ op.apply checks t = .error p ∧ p.IsArith := by
  cases op with
  | insert key data =>
    obtain ⟨t', ht', hi', _⟩ := IntervalTree.insert_inv data hi hp.1 hp.2
    exact .inl ⟨t', ht', hi'⟩
  | update key data =>
    obtain ⟨old, t', ht', hi'⟩ := IntervalTree.update_inv data hi hp
    exact .inl ⟨t', by simp [Op.apply, ht'], hi'⟩
  | delete key =>
    obtain ⟨old, t', ht', hi'⟩ := IntervalTree.delete_inv hi key
    exact .inl ⟨t', by simp [Op.apply, ht'], hi'⟩
  | allocate c =>
    cases h : IntervalTree.allocate checks t c with
    | ok res => exact .inl ⟨res.2, by simp [Op.apply, h], IntervalTree.allocate_inv hi h⟩
    | error p => exact .inr ⟨c, p, rfl, by simp [Op.apply, h], IntervalTree.allocate_error hi h⟩
  | free key =>
    obtain ⟨st, _, hmem⟩ := hp
    obtain ⟨pre, post, he⟩ := List.append_of_mem hmem
    obtain ⟨t', _, _, _, _, ht', _, _, hi', _⟩ := IntervalTree.free_spec checks hi he
    exact .inl ⟨t', by simp [Op.apply, ht'], hi'⟩

theorem Call.inv {checks : Bool} {t t' : IntervalTree T} {op : Op T} (hi : t.Inv)
    (h : Call checks t op t') : t'.Inv := by
  obtain ⟨hp, ha⟩ := h
  cases Op.apply_spec checks hi hp with
  | inl hok =>
    obtain ⟨t1, h1, hi1⟩ := hok
    rw [h1] at ha
    cases ha
    exact hi1
  | inr herr =>
    obtain ⟨c, p, _, he, _⟩ := herr
    rw [he] at ha
    cases ha

/-! ## What the invariant says about the nodes -/

namespace Tree

/-- A node is balanced in its true heights, and its two caches are exact. -/
def NodeOk : Tree T → Prop
  | .nil => True
  | .node k d l r h m =>
    l.depth ≤ r.depth + 1 ∧ r.depth ≤ l.depth + 1 ∧ h = (Tree.node k d l r h m).depth ∧
      IsGreatest {x | ∃ e ∈ (Tree.node k d l r h m).entries, e.1.max = x} m

theorem height_eq_depth : ∀ {t : Tree T}, t.Avl → t.height = t.depth := by
  intro t
  induction t with
  | nil => intro _; rfl
  | node k d l r h m ihl ihr =>
    intro ha
    obtain ⟨hl, hr, hh, _, _, _⟩ := ha
    rw [height_node, hh, ihl hl, ihr hr, depth]

theorem le_maxKey : ∀ {t : Tree T}, t.Avl → ∀ e ∈ t.entries, e.1.max ≤ t.maxKey := by
  intro t
  induction t with
  | nil => intro _ e he; simp at he
  | node k d l r h m ihl ihr =>
    intro ha e he
    obtain ⟨hl, hr, _, hm, _, _⟩ := ha
    rw [maxKey_node, hm]
    simp only [entries_node, List.mem_append, List.mem_cons] at he
    rcases he with he | rfl | he
    · have := ihl hl e he
      omega
    · simp only; omega
    · have := ihr hr e he
      omega

theorem exists_maxKey : ∀ {t : Tree T}, t.Avl → t.isNone = false → ∃ e ∈ t.entries, e.1.max = t.maxKey := by
  intro t
  induction t with
  | nil => intro _ h; simp at h
  | node k d l r h m ihl ihr =>
    intro ha _
    obtain ⟨hl, hr, _, hm, _, _⟩ := ha
    rw [maxKey_node]
    by_cases hk : m = k.max
    · exact ⟨(k, d), by simp, hk.symm⟩
    -- a cache of 0 stands for a missing child, which is not the maximum then
    · by_cases hml : m = l.maxKey
      · have hne : l.isNone = false := by
          cases l with
          | nil => simp only [maxKey_nil] at hml hm; omega
          | node => rfl
        obtain ⟨e, he, hmax⟩ := ihl hl hne
        exact ⟨e, by simp [he], by rw [hmax, hml]⟩
      · have hmr : m = r.maxKey := by omega
        have hne : r.isNone = false := by
          cases r with
          | nil => simp only [maxKey_nil] at hmr hm; omega
          | node => rfl
        obtain ⟨e, he, hmax⟩ := ihr hr hne
        exact ⟨e, by simp [he], by rw [hmax, hmr]⟩

theorem nodeOk_of_avl {t : Tree T} (ha : t.Avl) : t.NodeOk := by
  cases t with
  | nil => trivial
  | node k d l r h m =>
    have hh := height_eq_depth ha
    have hmax := exists_maxKey ha rfl
    have hle := le_maxKey ha
    obtain ⟨hl, hr, _, _, h1, h2⟩ := ha
    rw [height_eq_depth hl, height_eq_depth hr] at h1 h2
    refine ⟨h1, h2, hh, hmax, ?_⟩
    intro x hx
    obtain ⟨e, he, rfl⟩ := hx
    exact hle e he

theorem avl_of_mem_nodes : ∀ {t n : Tree T}, t.Avl → n ∈ t.nodes → n.Avl := by
  intro t
  induction t with
  | nil => intro n _ hn; simp [nodes] at hn
  | node k d l r h m ihl ihr =>
    intro n ha hn
    simp only [nodes, List.mem_append, List.mem_cons] at hn
    rcases hn with hn | rfl | hn
    · exact ihl ha.1 hn
    · exact ha
    · exact ihr ha.2.1 hn

end Tree

theorem Ordered.pairwise_keys {es : List (Range × NodeState T)} (ho : Ordered es) :
    (es.map Prod.fst).Pairwise fun a b => a.cmp b = .lt ∧ a.intersect b = false := by
  rw [List.pairwise_map]
  refine ho.2.imp_of_mem ?_
  intro a b ha hb hab
  have hwa := ho.1 a ha
  have hwb := ho.1 b hb
  refine ⟨Range.cmp_of_before hwa hab, ?_⟩
  have hiff := Range.intersect_iff hwa hwb
  by_contra hne
  rw [Bool.not_eq_false] at hne
  exact (hiff.mp hne).1 hab

/-- After every sequence of documented calls on a new tree the keys ascend and are disjoint, every
node is balanced, and every cache is exact; and the next documented call reaches no `unreachable!()`
and no `expect("Node is broken")`: if it panics at all, it is an `allocate` that fails in its
arithmetic. -/
theorem representation_invariant (checks : Bool) {ops : List (Op T)} {t : IntervalTree T}
    (h : Lib.Run (Call checks) IntervalTree.new ops t) :
    ((t.entries.map Prod.fst).Pairwise fun a b => a.cmp b = .lt ∧ a.intersect b = false) ∧ (∀ n ∈ t.nodes, n.NodeOk) ∧
    (∀ op : Op T, op.Pre t → ∀ p, op.apply checks t = .error p →
      p ≠ .unreachable ∧ p ≠ .nodeBroken ∧ p.IsArith ∧ ∃ c, op = .allocate c) := by
  have hi : t.Inv := h.invariant (fun _ _ _ hi hc => hc.inv hi) IntervalTree.inv_new
  refine ⟨hi.ordered.pairwise_keys, ?_, ?_⟩
  · intro n hn
    exact Tree.nodeOk_of_avl (Tree.avl_of_mem_nodes hi.avl hn)
  · intro op hp p hpanic
    cases Op.apply_spec checks hi hp with
    | inl hok =>
      obtain ⟨t', ht', _⟩ := hok
      rw [ht'] at hpanic
      cases hpanic
    | inr herr =>
      obtain ⟨c, p', hc, hp', ha⟩ := herr
      rw [hp'] at hpanic
      cases hpanic
      refine ⟨?_, ?_, ha, c, hc⟩
      · intro h
        rw [h] at ha
        exact ha
      · intro h
        rw [h] at ha
        exact ha

theorem representation_invariant_after_free : (Tree.node ⟨0, 9⟩ .free .nil .nil 1 9 : Tree Nat).NodeOk := by
  have hrun : Lib.Run (Call true) (IntervalTree.new : IntervalTree Nat)
      [.insert ⟨0, 9⟩ none, .insert ⟨20, 29⟩ (some 5), .allocate (.new 4), .update ⟨0, 3⟩ 7,
        .delete ⟨20, 29⟩, .free ⟨0, 3⟩] (.node ⟨0, 9⟩ .free .nil .nil 1 9) := by
    refine .cons ⟨⟨⟨by decide, by decide⟩, by decide⟩, rfl⟩ ?_
    refine .cons ⟨⟨⟨by decide, by decide⟩, by decide⟩, rfl⟩ ?_
    refine .cons ⟨trivial, rfl⟩ ?_
    refine .cons ⟨by unfold Op.Pre; decide, rfl⟩ ?_
    refine .cons ⟨trivial, rfl⟩ ?_
    refine .cons ⟨⟨.valued 7, by decide, by decide⟩, rfl⟩ ?_
    exact .nil
  exact (representation_invariant true hrun).2.1 _ (by simp [Tree.nodes])

/-! ## The result of `allocate` -/

namespace IntervalTree

/-- On a tree that does not reach the last id, `allocate` finds the lowest range that fits or
reports that there is none. The range becomes one allocated node and no other id changes its state. -/
theorem allocate_lowest_first (checks : Bool) {t : IntervalTree T} (hi : t.Inv)
    (hmax : ∀ e ∈ t.entries, e.1.max < u64Max) (c : Constraint) :
    (allocate checks t c = .ok (none, t) ↔ (c.size : Nat) = 0 ∨ ∀ s, ¬ FitsIn t.entries c s) ∧
    ((c.size : Nat) ≠ 0 → (∃ s, FitsIn t.entries c s) →
      ∃ s t', IsLeast {s | FitsIn t.entries c s} s ∧
        allocate checks t c = .ok (some ⟨s, s + c.size - 1⟩, t') ∧ t'.Inv ∧
        (⟨s, s + c.size - 1⟩, .allocated) ∈ t'.entries ∧
        ∀ id, idState t'.entries id =
          if s ≤ id ∧ id < s + c.size then some .allocated else idState t.entries id) := by
  have hne : ∀ e ∈ t.entries, ¬ AdmitsFull c e.1 := by
    intro e he h
    have hlt := hmax e he
    rw [h.1] at hlt
    exact Nat.lt_irrefl _ hlt
  rcases allocate_spec checks hi hne with
    ⟨hn, hno⟩ | ⟨hsz, pre, k, post, s, he, hfit, hleast, hres⟩
  · refine ⟨⟨fun _ => hno, fun _ => hn⟩, ?_⟩
    intro hsz hex
    obtain ⟨s, hs⟩ := hex
    cases hno with
    | inl h0 => exact absurd h0 hsz
    | inr hno => exact absurd hs (hno s)
  · have hkmax : k.max < u64Max := hmax (k, .free) (by simp [he])
    have hle := hfit.le_max
    have hkmin := hfit.min_le
    have hin : s + c.size ≤ u64Max := by omega
    rcases hres with ⟨t', ht', hi', he', _⟩ | ⟨_, hov, _⟩
    · constructor
      · constructor
        · intro hn
          rw [ht'] at hn
          cases hn
        · intro hno
          cases hno with
          | inl h0 => omega
          | inr hno => exact absurd hleast.1 (hno s)
      · intro _ _
        refine ⟨s, t', hleast, ht', hi', by simp [he', carve, rangeAt], ?_⟩
        have ho : Ordered (pre ++ (k, .free) :: post) := he ▸ hi.ordered
        have hmaxle : (rangeAt c s).max ≤ k.max := by simp only [rangeAt]; omega
        intro id
        rw [he', he, idState_carve ho (rangeAt_wf hsz (by omega)) hkmin hmaxle]
        simp only [Range.has_iff, rangeAt]
        congr 1
        simp only [eq_iff_iff]
        omega
    · cases hov with
      | inl h64 => simp only [u64Max] at hin; omega
      | inr hfull =>
        rw [hfull.1] at hkmax
        exact absurd hkmax (Nat.lt_irrefl _)

theorem allocate_lowest_first_split :
    ∃ s t', allocate true (.node ⟨1, 9⟩ .free .nil .nil 1 9 : IntervalTree Nat)
        { size := 2, min := 3, max := 20, align := 4, policy := .default } =
          .ok (some ⟨s, s + 2 - 1⟩, t') ∧
      idState t'.entries s = some .allocated := by
  have hi : Inv (.node ⟨1, 9⟩ .free .nil .nil 1 9 : IntervalTree Nat) :=
    ⟨⟨trivial, trivial, rfl, rfl, by decide, by decide⟩,
      by simp [Ordered]; exact ⟨by decide, by decide⟩⟩
  obtain ⟨s, t', _, ht', _, _, hid⟩ := (allocate_lowest_first true hi (by decide)
    { size := 2, min := 3, max := 20, align := 4, policy := .default }).2 (by decide)
    ⟨4, (⟨1, 9⟩, .free), by decide, rfl, by decide, by decide, by decide, by decide, by decide⟩
  exact ⟨s, t', ht', by rw [hid, if_pos ⟨Nat.le_refl _, Nat.lt_add_of_pos_right (by decide)⟩]⟩

end IntervalTree

end Kata.Allocator
