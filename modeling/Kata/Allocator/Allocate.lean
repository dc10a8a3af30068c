import Mathlib.Data.Nat.Find
import Kata.Allocator.IntervalTree

/-!
# Kata.Allocator.Allocate

What `allocate` does to the in-order list of a tree.

`Fits c k s` says that `s` is the start of an admissible range of `c.size` ids inside `k`: the
specification the search is compared with. The candidate of `find_candidate` is the first free entry
in which something fits (`firstMatch_spec`), the range cut from it starts at the least fitting
start, and the tree becomes `pre ++ carve k r ++ post` (`allocate_spec`).

The only failures left are those of id arithmetic (`allocate_error`): the range of all ids, and a
range that ends at the last id, for which `aligned_key.min + constraint.size` overflows.
-/

namespace Kata.Allocator

open Lib

variable {T : Type}

/-- The `c.size` ids from `s` on lie in `k` and in the bounds of `c`, and `s` is aligned. -/
structure Fits (c : Constraint) (k : Range) (s : Nat) : Prop where
  min_le : k.min ≤ s
  cmin_le : c.min ≤ s
  le_max : s + c.size ≤ k.max + 1
  le_cmax : s + c.size ≤ c.max + 1
  aligned : Aligned c.align s

def Candidate (c : Constraint) (e : Range × NodeState T) : Prop := e.2 = .free ∧ ∃ s, Fits c e.1 s

/-- The part of `k` inside the bounds of `c`. -/
def clip (c : Constraint) (k : Range) : Range := ⟨max k.min c.min, min k.max c.max⟩

def AdmitsFull (c : Constraint) (k : Range) : Prop := k = Range.full ∧ (c.min : Nat) = 0 ∧ (c.max : Nat) = u64Max

theorem Constraint.max_le (c : Constraint) : (c.max : Nat) ≤ u64Max := Nat.le_of_lt_succ c.max.isLt

theorem Constraint.align_le (c : Constraint) : (c.align : Nat) ≤ u64Max := Nat.le_of_lt_succ c.align.isLt

section Clip

variable {c : Constraint} {k : Range} {s : Nat}

theorem clip_wf (hw : k.Wf) (h : (clip c k).min ≤ (clip c k).max) : (clip c k).Wf :=
  ⟨h, Nat.le_trans (Nat.min_le_left _ _) hw.max_le⟩

theorem clip_ne_full (hw : k.Wf) (hc : ¬ AdmitsFull c k) : clip c k ≠ Range.full := by
  intro h
  have hmin : max k.min c.min = 0 := congrArg Range.min h
  have hmax : min k.max c.max = u64Max := congrArg Range.max h
  have h1 := hw.max_le
  have h2 := c.max_le
  refine hc ⟨?_, by omega, by omega⟩
  obtain ⟨a, b⟩ := k
  simp only [Range.full, Range.mk.injEq]
  simp only at hmin hmax h1
  omega

theorem fits_iff (hsz : 0 < (c.size : Nat)) :
    Fits c k s ↔ (clip c k).Has s ∧ Aligned c.align s ∧ s + c.size ≤ (clip c k).max + 1 := by
  constructor
  · rintro ⟨h1, h2, h3, h4, h5⟩
    refine ⟨⟨?_, ?_⟩, h5, ?_⟩ <;> simp only [clip] <;> omega
  · rintro ⟨⟨h1, h2⟩, h3, h4⟩
    simp only [clip] at h1 h2 h4
    exact ⟨by omega, by omega, by omega, by omega, h3⟩

/-- The least aligned start in the clipped range is the least fitting start, if anything fits. -/
theorem fits_of_isLeast (hsz : 0 < (c.size : Nat)) {m : Nat}
    (hm : IsLeast {s | (clip c k).Has s ∧ Aligned c.align s} m) :
    (∃ s, Fits c k s) ↔ m + c.size ≤ (clip c k).max + 1 := by
  constructor
  · rintro ⟨s, hs⟩
    obtain ⟨h1, h2, h3⟩ := (fits_iff hsz).mp hs
    have := hm.2 ⟨h1, h2⟩
    omega
  · intro h
    exact ⟨m, (fits_iff hsz).mpr ⟨hm.1.1, hm.1.2, h⟩⟩

theorem isLeast_fits (hsz : 0 < (c.size : Nat)) {m : Nat}
    (hm : IsLeast {s | (clip c k).Has s ∧ Aligned c.align s} m) (h : ∃ s, Fits c k s) :
    IsLeast {s | Fits c k s} m := by
  refine ⟨(fits_iff hsz).mpr ⟨hm.1.1, hm.1.2, (fits_of_isLeast hsz hm).mp h⟩, ?_⟩
  intro s hs
  obtain ⟨h1, h2, _⟩ := (fits_iff hsz).mp hs
  exact hm.2 ⟨h1, h2⟩

end Clip

namespace IntervalTree

/-! ## The search for a candidate -/

section Search

variable {checks : Bool} {c : Constraint}

/-- Without alignment `align_to` returns the range itself, so the two branches of `check_constraint`
are one. -/
theorem checkConstraint_free (k : Range) (hle : (clip c k).min ≤ (clip c k).max) :
    checkConstraint checks c k (.free : NodeState T) = (do
      let key ← Range.new (clip c k).min (clip c k).max
      match ← key.alignTo c.align with
      | none => return false
      | some alignedKey => return decide ((← alignedKey.len checks) ≥ c.size)) := by
  have hle' : max k.min c.min ≤ min k.max c.max := hle
  simp only [checkConstraint, NodeState.isFree, if_true, if_pos hle']
  by_cases ha : (c.align : Nat) = 0 ∨ (c.align : Nat) = 1
  · simp only [if_pos ha, clip, Range.alignTo, ok_bind]
  · refine bind_congr fun key => ?_
    exact if_neg ha

theorem checkConstraint_spec (checks : Bool) {k : Range} (hw : k.Wf) (hsz : 0 < (c.size : Nat)) {d : NodeState T}
    (hc : ¬ AdmitsFull c k) :
    ∃ b, checkConstraint checks c k d = .ok b ∧ (b = true ↔ Candidate c (k, d)) := by
  by_cases hd : d = .free
  · subst hd
    have hnone : (∀ s, ¬ Fits c k s) → (false = true ↔ Candidate c (k, (.free : NodeState T))) :=
      fun hno => ⟨nofun, fun hc => absurd hc.2.choose_spec (hno _)⟩
    by_cases hle : (clip c k).min ≤ (clip c k).max
    · have hwf := clip_wf hw hle
      have hne := clip_ne_full hw hc
      rw [checkConstraint_free k hle, Range.new_eq_ok hle (Range.ne_full_iff.mp hne), ok_bind]
      rcases Range.alignTo_spec hwf hne c.align_le with ⟨m, ha, hm⟩ | ⟨ha, hno⟩
      · have hmle := hm.1.1.2
        have hmge := hm.1.1.1
        have hlen : (⟨m, (clip c k).max⟩ : Range).len checks = .ok ((clip c k).max - m + 1) := by
          refine Range.len_eq_ok ⟨hmle, hwf.max_le⟩ (Range.ne_full_iff.mpr ?_)
          rintro ⟨h0, hmax⟩
          exact Range.ne_full_iff.mp hne ⟨by simp only at h0; omega, hmax⟩
        refine ⟨decide ((clip c k).max - m + 1 ≥ c.size), by simp [ha, hlen], ?_⟩
        simp only [Candidate, true_and, fits_of_isLeast hsz hm, decide_eq_true_eq]
        omega
      · refine ⟨false, by simp [ha], hnone fun s hs => ?_⟩
        obtain ⟨h1, h2, _⟩ := (fits_iff hsz).mp hs
        exact hno s h1 h2
    · have hle' : ¬ max k.min c.min ≤ min k.max c.max := hle
      refine ⟨false, by simp only [checkConstraint, NodeState.isFree, if_true, if_neg hle'], hnone fun s hs => ?_⟩
      obtain ⟨h1, _, _⟩ := (fits_iff hsz).mp hs
      exact hle (Nat.le_trans h1.1 h1.2)
  · have hf : ¬ d.isFree = true := by simpa using hd
    exact ⟨false, by simp only [checkConstraint, if_neg hf], by simp [Candidate, hd]⟩

/-- `first_match` finds the first free entry in which something fits. -/
theorem firstMatch_spec (checks : Bool) (hsz : 0 < (c.size : Nat)) : ∀ {t : Tree T}, (∀ e ∈ t.entries, e.1.Wf) →
    (∀ e ∈ t.entries, ¬ AdmitsFull c e.1) →
    (firstMatch checks c t = .ok none ∧ ∀ e ∈ t.entries, ¬ Candidate c e) ∨
    (∃ pre e post, firstMatch checks c t = .ok (some e) ∧ t.entries = pre ++ e :: post ∧
      Candidate c e ∧ ∀ a ∈ pre, ¬ Candidate c a) := by
  intro t
  induction t with
  | nil => intro _ _; exact .inl ⟨rfl, by simp⟩
  | node k d l r h m ihl ihr =>
    intro hw hc
    obtain ⟨b, hb, hbc⟩ := checkConstraint_spec checks (d := d) (hw (k, d) (by simp)) hsz
      (hc (k, d) (by simp))
    rcases ihl (fun e he => hw e (by simp [he])) (fun e he => hc e (by simp [he])) with
      ⟨hl, hlno⟩ | ⟨pre, e, post, hl, hle, hcand, hpre⟩
    · cases b with
      | true =>
        exact .inr ⟨l.entries, (k, d), r.entries, by simp [firstMatch, hl, hb], rfl, hbc.mp rfl, hlno⟩
      | false =>
        have hno : ¬ Candidate c (k, d) := fun hk => by simpa using hbc.mpr hk
        rcases ihr (fun e he => hw e (by simp [he])) (fun e he => hc e (by simp [he])) with
          ⟨hr, hrno⟩ | ⟨pre, e, post, hr, hre, hcand, hpre⟩
        · refine .inl ⟨by simp [firstMatch, hl, hb, hr], ?_⟩
          intro e he
          simp only [Tree.entries_node, List.mem_append, List.mem_cons] at he
          rcases he with he | rfl | he
          · exact hlno e he
          · exact hno
          · exact hrno e he
        · refine .inr ⟨l.entries ++ (k, d) :: pre, e, post, by simp [firstMatch, hl, hb, hr],
            by simp [hre], hcand, ?_⟩
          intro a ha
          simp only [List.mem_append, List.mem_cons] at ha
          rcases ha with ha | rfl | ha
          · exact hlno a ha
          · exact hno
          · exact hpre a ha
    · exact .inr ⟨pre, e, post ++ (k, d) :: r.entries, by simp [firstMatch, hl], by simp [hle], hcand,
        hpre⟩

theorem findCandidate_eq (t : Tree T) : findCandidate checks c t = firstMatch checks c t := by
  unfold findCandidate
  cases c.policy <;> rfl

end Search

/-! ## Cutting the range out of the candidate -/

end IntervalTree

section Carve

variable {pre post ps : List (Range × NodeState T)} {k r : Range} {st : NodeState T}

/-- What is left of `k` below `r`. -/
def below (k r : Range) : List (Range × NodeState T) :=
  if k.min < r.min then [(⟨k.min, r.min - 1⟩, .free)] else []

/-- What is left of `k` above `r`. -/
def above (k r : Range) : List (Range × NodeState T) :=
  if r.max < k.max then [(⟨r.max + 1, k.max⟩, .free)] else []

def carve (k r : Range) (st : NodeState T) : List (Range × NodeState T) :=
  below k r ++ (r, st) :: above k r

/-- An entry can be replaced by ordered entries inside its key. -/
theorem Ordered.replace (h : Ordered (pre ++ (k, st) :: post)) (hp : Ordered ps)
    (hin : ∀ p ∈ ps, k.min ≤ p.1.min ∧ p.1.max ≤ k.max) : Ordered (pre ++ (ps ++ post)) := by
  obtain ⟨hw, hpw⟩ := h
  have hb := fun a ha => Ordered.before_of_mem_left ⟨hw, hpw⟩ (a := a) ha
  have ha := fun b hb => Ordered.before_of_mem_right ⟨hw, hpw⟩ (b := b) hb
  rw [List.pairwise_append, List.pairwise_cons] at hpw
  obtain ⟨h1, ⟨_, h2⟩, h3⟩ := hpw
  refine ⟨?_, ?_⟩
  · intro e he
    simp only [List.mem_append] at he
    rcases he with he | he | he
    · exact hw e (by simp [he])
    · exact hp.1 e he
    · exact hw e (by simp [he])
  · rw [List.pairwise_append, List.pairwise_append]
    refine ⟨h1, ⟨hp.2, h2, ?_⟩, ?_⟩
    · intro p hps b hbp
      have h4 := (hin p hps).2
      have h5 : k.max < b.1.min := ha b hbp
      show p.1.max < b.1.min
      omega
    · intro a hap x hx
      rcases List.mem_append.mp hx with hx | hx
      · have h4 := (hin x hx).1
        have h5 : a.1.max < k.min := hb a hap
        show a.1.max < x.1.min
        omega
      · exact h3 a hap x (by simp [hx])

theorem Ordered.set (h : Ordered (pre ++ (k, st) :: post)) (st' : NodeState T) :
    Ordered (pre ++ (k, st') :: post) := by
  have hw := h.1 (k, st) (by simp)
  have hone : Ordered [(k, st')] := ⟨by simpa using hw, by simp⟩
  exact h.replace hone (by simp)

theorem ordered_carve (st : NodeState T) (hk : k.Wf) (hr : r.Wf) (h2 : r.max ≤ k.max) : Ordered (carve k r st) := by
  have hle := hr.min_le_max
  have hmax := hk.max_le
  refine ⟨?_, ?_⟩
  · intro e he
    simp only [carve, below, above, List.mem_append, List.mem_cons] at he
    rcases he with he | rfl | he
    · split at he
      · simp only [List.mem_cons, List.not_mem_nil, or_false] at he
        subst he; exact ⟨by simp only; omega, by simp only; omega⟩
      · simp at he
    · exact hr
    · split at he
      · simp only [List.mem_cons, List.not_mem_nil, or_false] at he
        subst he; exact ⟨by simp only; omega, hmax⟩
      · simp at he
  · unfold carve below above
    split <;> split <;> simp [Range.Before] <;> omega

theorem carve_inside (hr : r.Wf) (h1 : k.min ≤ r.min) (h2 : r.max ≤ k.max) :
    ∀ p ∈ carve k r st, k.min ≤ p.1.min ∧ p.1.max ≤ k.max := by
  have hle := hr.min_le_max
  intro p hp
  simp only [carve, below, above, List.mem_append, List.mem_cons] at hp
  rcases hp with hp | rfl | hp
  · split at hp
    · simp only [List.mem_cons, List.not_mem_nil, or_false] at hp
      subst hp; exact ⟨by simp, by simp only; omega⟩
    · simp at hp
  · exact ⟨h1, h2⟩
  · split at hp
    · simp only [List.mem_cons, List.not_mem_nil, or_false] at hp
      subst hp; exact ⟨by simp only; omega, by simp⟩
    · simp at hp

end Carve

namespace IntervalTree

section Split

variable {checks : Bool} {pre post : List (Range × NodeState T)} {k r : Range} {st : NodeState T}

theorem unwrapRoot_of_mem {t : IntervalTree T} {e : Range × NodeState T} (h : e ∈ t.entries) :
    unwrapRoot t = .ok t := by
  cases t with
  | nil => simp at h
  | node => rfl

section Stages

variable {t : IntervalTree T} (ha : t.Avl)
include ha

theorem insertBelow_spec (checks : Bool) (k r : Range) (top : Nat) (he : t.entries = pre ++ post)
    (ho : Ordered (pre ++ (below k r ++ post))) (hr : r.min ≤ u64Max) :
    ∃ t', insertBelow checks t k ⟨r.min, top⟩ = .ok t' ∧ t'.Avl ∧
      t'.entries = pre ++ (below k r ++ post) := by
  by_cases hlt : k.min < r.min
  · have hb : below k r = [((⟨k.min, r.min - 1⟩ : Range), (NodeState.free : NodeState T))] := if_pos hlt
    obtain ⟨t', ht', hrb⟩ := Tree.insert_spec ⟨k.min, r.min - 1⟩ none ha he
      (by simpa [hb, NodeState.ofOption] using ho)
    refine ⟨t', ?_, hrb.avl, by rw [hrb.entries, hb]; simp [NodeState.ofOption]⟩
    have h1 : 1 ≤ r.min := by omega
    have h2 : k.min ≤ r.min - 1 := by omega
    rw [insertBelow, if_pos hlt, subU64_of_le h1, ok_bind, Range.new_eq_ok h2 (by omega)]
    exact ht'
  · exact ⟨t, by rw [insertBelow, if_neg hlt], ha, by simp [he, below, hlt]⟩

theorem insertAbove_spec (checks : Bool) (k r : Range) (he : t.entries = pre ++ post)
    (ho : Ordered (pre ++ (above k r ++ post))) (hk : k.max ≤ u64Max) :
    ∃ t', insertAbove checks t k r = .ok t' ∧ t'.Avl ∧ t'.entries = pre ++ (above k r ++ post) := by
  by_cases hlt : r.max < k.max
  · have hb : above k r = [((⟨r.max + 1, k.max⟩ : Range), (NodeState.free : NodeState T))] := if_pos hlt
    obtain ⟨t', ht', hrb⟩ := Tree.insert_spec ⟨r.max + 1, k.max⟩ none ha he
      (by simpa [hb, NodeState.ofOption] using ho)
    refine ⟨t', ?_, hrb.avl, by rw [hrb.entries, hb]; simp [NodeState.ofOption]⟩
    rw [insertAbove, if_pos hlt, addU64_of_le (by omega), ok_bind,
      Range.new_eq_ok (by omega) (by omega)]
    exact ht'
  · exact ⟨t, by rw [insertAbove, if_neg hlt], ha, by simp [he, above, hlt]⟩

end Stages

theorem splitNode_spec (checks : Bool) {t : IntervalTree T} (hi : Inv t) (he : t.entries = pre ++ (k, st) :: post)
    (top : Nat) (hr : r.Wf) (h1 : k.min ≤ r.min) (h2 : r.max ≤ k.max) :
    ∃ t', splitNode checks t k ⟨r.min, top⟩ r = .ok t' ∧ Inv t' ∧
      t'.entries = pre ++ (carve k r .allocated ++ post) := by
  have ho : Ordered (pre ++ (k, st) :: post) := he ▸ hi.ordered
  have hk : k.Wf := ho.1 (k, st) (by simp)
  have hle := hr.min_le_max
  have hmax := hk.max_le
  have hfull := fun st : NodeState T => ho.replace (ordered_carve st hk hr h2)
    (carve_inside hr h1 h2)
  -- the trees in between: the node deleted, then the three pieces inserted in order
  obtain ⟨t1, ht1, hrb1⟩ := Tree.delete_spec hi.avl hi.ordered he
  obtain ⟨t2, ht2, ha2, he2⟩ := insertBelow_spec hrb1.avl checks k r top hrb1.entries
    ((hfull .free).sublist (by simp [carve])) (by omega)
  have he2' : t2.entries = (pre ++ below k r) ++ post := by simp [he2]
  obtain ⟨t3, ht3, hrb3⟩ := Tree.insert_spec r none ha2 he2'
    ((hfull .free).sublist (by simp [carve, NodeState.ofOption]))
  have he3 : t3.entries = (pre ++ below k r ++ [(r, .free)]) ++ post := by
    rw [hrb3.entries]; simp [NodeState.ofOption]
  obtain ⟨t4, ht4, ha4, he4⟩ := insertAbove_spec hrb3.avl checks k r he3
    (by simpa [carve] using hfull .free) hmax
  have he4' : t4.entries = (pre ++ below k r) ++ (r, .free) :: (above k r ++ post) := by simp [he4]
  have ho4 : Ordered t4.entries := by rw [he4']; simpa [carve] using hfull .free
  obtain ⟨t5, ht5, ha5, _, _, he5⟩ := Tree.update_spec .allocated rfl ha4 ho4 he4'
  have he5' : t5.entries = pre ++ (carve k r .allocated ++ post) := by rw [he5]; simp [carve]
  refine ⟨t5, ?_, ⟨ha5, by rw [he5']; exact hfull .allocated⟩, he5'⟩
  have hroot := unwrapRoot_of_mem (t := t4) (e := (r, .free)) (by simp [he4'])
  simp only [splitNode, ht1, ok_bind, ht2, ht3, ht4, hroot, ht5]
  rfl

end Split

/-! ## The whole call -/

section Result

variable {checks : Bool} {c : Constraint} {t : IntervalTree T}
  {pre post : List (Range × NodeState T)} {k : Range} {m : Nat}

/-- The range of `c.size` ids from `m` on. -/
def rangeAt (c : Constraint) (m : Nat) : Range := ⟨m, m + c.size - 1⟩

/-- The end of the result. With `overflow-checks` off the sum wraps and the difference wraps back. -/
theorem end_of_result (checks : Bool) (hsz : 0 < (c.size : Nat)) (hle : m + c.size ≤ u64Max + 1)
    (hov : checks = true → m + c.size ≤ u64Max) :
    (do subU64 checks (← addU64 checks m c.size) 1) = .ok (m + c.size - 1) := by
  by_cases h : m + c.size ≤ u64Max
  · rw [addU64_of_le h, ok_bind, subU64_of_le (by omega)]
  · cases checks with
    | true => exact absurd (hov rfl) h
    | false =>
      have heq : m + (c.size : Nat) = 2 ^ 64 := by simp only [u64Max] at h hle; omega
      simp [addU64, subU64, heq, u64Max]

theorem exactFit_spec (checks : Bool) (top : Nat) (hw : k.Wf) (hsz : 0 < (c.size : Nat))
    (hfull : checks = true → ¬ (k = Range.full ∧ m = 0)) (hle : m + c.size ≤ k.max + 1) :
    exactFit checks c k ⟨m, top⟩ = .ok (decide (k = rangeAt c m)) := by
  have h1 := hw.min_le_max
  obtain ⟨a, b⟩ := k
  simp only at h1 hle
  simp only [exactFit, rangeAt, Range.mk.injEq]
  by_cases hm : a = m
  · subst hm
    rw [if_pos rfl]
    by_cases hf : (⟨a, b⟩ : Range) = Range.full
    · -- the length of the full range wraps to 0, which no constraint asks for here
      cases checks with
      | true => exact absurd ⟨hf, by cases hf; rfl⟩ (hfull rfl)
      | false =>
        cases hf
        have h64 := c.size.isLt
        have hlen : Range.len false ⟨0, u64Max⟩ = .ok 0 := by decide
        rw [hlen, ok_bind, pure_eq_ok]
        congr 1
        simp only [u64Max, decide_eq_decide]
        omega
    · rw [Range.len_eq_ok hw hf, ok_bind, pure_eq_ok]
      congr 1
      simp only [decide_eq_decide, true_and]
      omega
  · rw [if_neg hm]
    simp [hm]

theorem exactFit_full (hm : m = 0) {top : Nat} : exactFit true c Range.full ⟨m, top⟩ = .error .overflow := by
  subst hm
  have hlen : Range.len true Range.full = .error .overflow := by decide
  have hmin : Range.full.min = (⟨0, top⟩ : Range).min := rfl
  rw [exactFit, if_pos hmin, hlen, error_bind]

theorem rangeAt_wf (hsz : 0 < (c.size : Nat)) (hle : m + c.size ≤ u64Max + 1) : (rangeAt c m).Wf := by
  constructor <;> simp only [rangeAt] <;> omega

theorem new_rangeAt (hsz : 0 < (c.size : Nat)) : Range.new m (m + c.size - 1) = .ok (rangeAt c m) := by
  have h64 := c.size.isLt
  refine Range.new_eq_ok (by omega) ?_
  rintro ⟨rfl, h⟩
  simp only [u64Max] at h
  omega

theorem alignTo_clip (hw : k.Wf) (hsz : 0 < (c.size : Nat))
    (hc : ¬ AdmitsFull c k) (hm : IsLeast {s | Fits c k s} m) :
    Range.new (max k.min c.min) (min k.max c.max) = .ok (clip c k) ∧
      (clip c k).alignTo c.align = .ok (some ⟨m, (clip c k).max⟩) := by
  have hne := clip_ne_full hw hc
  obtain ⟨⟨hm1, hm2⟩, hal, _⟩ := (fits_iff hsz).mp hm.1
  have hle : (clip c k).min ≤ (clip c k).max := Nat.le_trans hm1 hm2
  refine ⟨Range.new_eq_ok hle (Range.ne_full_iff.mp hne), ?_⟩
  rcases Range.alignTo_spec (clip_wf hw hle) hne c.align_le with ⟨m', ha, hm'⟩ | ⟨_, hno⟩
  · rw [ha, hm.unique (isLeast_fits hsz hm' ⟨m, hm.1⟩)]
  · exact absurd hal (hno m ⟨hm1, hm2⟩)

theorem allocateFrom_spec (checks : Bool) (hi : Inv t) (he : t.entries = pre ++ (k, .free) :: post)
    (hsz : 0 < (c.size : Nat)) (hc : ¬ AdmitsFull c k)
    (hm : IsLeast {s | Fits c k s} m) (hov : checks = true → m + c.size ≤ u64Max)
    (hfull : checks = true → ¬ (k = Range.full ∧ m = 0)) :
    ∃ t', allocateFrom checks t c k = .ok (some (rangeAt c m), t') ∧ Inv t' ∧
      t'.entries = pre ++ (carve k (rangeAt c m) .allocated ++ post) := by
  have ho : Ordered (pre ++ (k, .free) :: post) := he ▸ hi.ordered
  have hw : k.Wf := ho.1 (k, .free) (by simp)
  have hkmax := hw.max_le
  have hle := hm.1.le_max
  have hmin := hm.1.min_le
  obtain ⟨hnew, hal⟩ := alignTo_clip hw hsz hc hm
  have hend := end_of_result checks hsz (by omega) hov
  have hfit := exactFit_spec checks (clip c k).max hw hsz hfull hle
  simp only [allocateFrom, hnew, ok_bind, hal]
  rw [← bind_assoc, hend, ok_bind, new_rangeAt hsz, ok_bind, hfit, ok_bind]
  by_cases hk : k = rangeAt c m
  · obtain ⟨t', ht', ha', _, _, he'⟩ := Tree.update_spec .allocated rfl hi.avl hi.ordered he
    have hroot := unwrapRoot_of_mem (t := t) (e := (k, .free)) (by simp [he])
    have hcarve : carve k (rangeAt c m) .allocated = [(k, (.allocated : NodeState T))] := by
      rw [← hk]; simp [carve, below, above]
    refine ⟨t', ?_, ⟨ha', ?_⟩, by rw [he', hcarve]; rfl⟩
    · simp only [hk, decide_true, if_true, hroot, ok_bind]
      rw [← hk, ht']
      rfl
    · rw [he']
      exact ho.set .allocated
  · have hwr := rangeAt_wf (m := m) hsz (by omega)
    have hin : (rangeAt c m).max ≤ k.max := by simp only [rangeAt]; omega
    obtain ⟨t', ht', hi', he'⟩ := splitNode_spec checks hi he (clip c k).max hwr hmin hin
    have hsplit : splitNode checks t k ⟨m, (clip c k).max⟩ (rangeAt c m) = .ok t' := ht'
    refine ⟨t', ?_, hi', he'⟩
    simp only [hk, decide_false, Bool.false_eq_true, if_false]
    rw [hsplit]
    rfl

theorem allocateFrom_overflow (hw : k.Wf) (hsz : 0 < (c.size : Nat)) (hc : ¬ AdmitsFull c k)
    (hm : IsLeast {s | Fits c k s} m) (hov : m + c.size = 2 ^ 64 ∨ (k = Range.full ∧ m = 0)) :
    allocateFrom true t c k = .error .overflow := by
  obtain ⟨hnew, hal⟩ := alignTo_clip hw hsz hc hm
  simp only [allocateFrom, hnew, ok_bind, hal]
  rw [← bind_assoc]
  by_cases hle : m + c.size ≤ u64Max
  · rcases hov with hov | ⟨rfl, hm0⟩
    · simp only [u64Max] at hle; omega
    · rw [end_of_result true hsz (by omega) (fun _ => hle), ok_bind, new_rangeAt hsz, ok_bind,
        exactFit_full hm0, error_bind]
  · simp [addU64, hle]

/-- `s` is the start of an admissible range in some free entry. -/
def FitsIn (es : List (Range × NodeState T)) (c : Constraint) (s : Nat) : Prop :=
  ∃ e ∈ es, e.2 = .free ∧ Fits c e.1 s

theorem not_candidate_iff {es : List (Range × NodeState T)} : (∀ e ∈ es, ¬ Candidate c e) ↔ ∀ s, ¬ FitsIn es c s := by
  constructor
  · rintro h s ⟨e, he, hf, hs⟩
    exact h e he ⟨hf, s, hs⟩
  · rintro h e he ⟨hf, s, hs⟩
    exact h s ⟨e, he, hf, hs⟩

/-- The least start in the first candidate is the least start of all: the candidates behind it lie
above it. -/
theorem isLeast_fitsIn (ho : Ordered (pre ++ (k, .free) :: post)) (hsz : 0 < (c.size : Nat))
    (hpre : ∀ a ∈ pre, ¬ Candidate c a) (hm : IsLeast {s | Fits c k s} m) :
    IsLeast {s | FitsIn (pre ++ (k, .free) :: post) c s} m := by
  refine ⟨⟨(k, .free), by simp, rfl, hm.1⟩, ?_⟩
  rintro s ⟨e, he, hf, hs⟩
  simp only [List.mem_append, List.mem_cons] at he
  rcases he with he | rfl | he
  · exact absurd ⟨hf, s, hs⟩ (hpre e he)
  · exact hm.2 hs
  · have hb : k.max < e.1.min := ho.before_of_mem_right he
    have h1 := hs.min_le
    have h2 : m + c.size ≤ k.max + 1 := hm.1.le_max
    omega

/-- What `allocate` does, unless the constraint admits the range of all ids and that range is a key. -/
theorem allocate_spec (checks : Bool) (hi : Inv t)
    (hc : ∀ e ∈ t.entries, ¬ AdmitsFull c e.1) :
    (allocate checks t c = .ok (none, t) ∧ ((c.size : Nat) = 0 ∨ ∀ s, ¬ FitsIn t.entries c s)) ∨
    (0 < (c.size : Nat) ∧ ∃ pre k post m, t.entries = pre ++ (k, .free) :: post ∧ Fits c k m ∧
      IsLeast {s | FitsIn t.entries c s} m ∧
      ((∃ t', allocate checks t c = .ok (some (rangeAt c m), t') ∧ Inv t' ∧
          t'.entries = pre ++ (carve k (rangeAt c m) .allocated ++ post) ∧
          (checks = true → m + c.size ≠ 2 ^ 64)) ∨
        (checks = true ∧ (m + c.size = 2 ^ 64 ∨ (k = Range.full ∧ m = 0)) ∧
          allocate checks t c = .error .overflow))) := by
  by_cases hsz : (c.size : Nat) = 0
  · exact .inl ⟨by rw [allocate, if_pos hsz], .inl hsz⟩
  have hpos : 0 < (c.size : Nat) := by omega
  rcases firstMatch_spec checks hpos hi.ordered.1 hc with ⟨hf, hno⟩ |
    ⟨pre, ⟨k, d⟩, post, hf, he, ⟨hd, hfit⟩, hpre⟩
  · refine .inl ⟨?_, .inr (not_candidate_iff.mp hno)⟩
    rw [allocate, if_neg hsz, findCandidate_eq, hf]
    rfl
  · obtain rfl : d = .free := hd
    classical
    obtain ⟨m, hm⟩ : ∃ m, IsLeast {s | Fits c k s} m := ⟨_, Nat.isLeast_find hfit⟩
    have ho : Ordered (pre ++ (k, .free) :: post) := he ▸ hi.ordered
    have hmem : (k, .free) ∈ t.entries := by simp [he]
    have hw : k.Wf := hi.ordered.1 _ hmem
    have hkmax := hw.max_le
    have hle : m + c.size ≤ k.max + 1 := hm.1.le_max
    have hall : allocate checks t c = allocateFrom checks t c k := by
      rw [allocate, if_neg hsz, findCandidate_eq, hf]
      rfl
    refine .inr ⟨hpos, pre, k, post, m, he, hm.1, by rw [he]; exact isLeast_fitsIn ho hpos hpre hm, ?_⟩
    rw [hall]
    by_cases hov : checks = true ∧ (m + c.size = 2 ^ 64 ∨ (k = Range.full ∧ m = 0))
    · obtain ⟨rfl, hov⟩ := hov
      exact .inr ⟨rfl, hov, allocateFrom_overflow hw hpos (hc _ hmem) hm hov⟩
    · have hne : checks = true → ¬ m + c.size = 2 ^ 64 := fun h h' => hov ⟨h, .inl h'⟩
      obtain ⟨t', ht', hi', he'⟩ := allocateFrom_spec checks hi he hpos (hc _ hmem) hm
        (fun h => by have := hne h; simp only [u64Max] at hkmax ⊢; omega)
        (fun h h' => hov ⟨h, .inr h'⟩)
      exact .inl ⟨t', ht', hi', he', hne⟩

theorem entries_of_full {d : NodeState T} (ho : Ordered t.entries) (h : (Range.full, d) ∈ t.entries) :
    t.entries = [(Range.full, d)] := by
  obtain ⟨pre, post, he⟩ := List.append_of_mem h
  rw [he] at ho ⊢
  have hpre : pre = [] := by
    refine List.eq_nil_iff_forall_not_mem.mpr fun a ha => ?_
    exact absurd (ho.before_of_mem_left ha) (Nat.not_lt_zero _)
  have hpost : post = [] := by
    refine List.eq_nil_iff_forall_not_mem.mpr fun b hb => ?_
    have h1 : u64Max < b.1.min := ho.before_of_mem_right hb
    have h2 := ho.1 b (by simp [hb])
    have h3 := h2.min_le_max
    have h4 := h2.max_le
    omega
  rw [hpre, hpost]
  rfl

theorem allocate_full (checks : Bool) {d : NodeState T} (ho : Ordered t.entries) (h : (Range.full, d) ∈ t.entries)
    (hmin : (c.min : Nat) = 0) (hmax : (c.max : Nat) = u64Max) :
    allocate checks t c = .ok (none, t) ∨
      allocate checks t c = .error (.invalidRange 0 u64Max) := by
  have he := entries_of_full ho h
  by_cases hsz : (c.size : Nat) = 0
  · exact .inl (by rw [allocate, if_pos hsz])
  rw [allocate, if_neg hsz, findCandidate_eq]
  cases t with
  | nil => simp at h
  | node k d' l r hh m =>
    -- the root is the only node
    simp only [Tree.entries_node] at he
    cases hl : l.entries with
    | cons a as => rw [hl] at he; simp at he
    | nil =>
      rw [hl] at he
      simp only [List.nil_append, List.cons.injEq, Prod.mk.injEq] at he
      obtain ⟨⟨rfl, rfl⟩, hr⟩ := he
      have hlnil : l = .nil := by cases l with
        | nil => rfl
        | node => simp at hl
      have hrnil : r = .nil := by cases r with
        | nil => rfl
        | node => simp at hr
      subst hlnil hrnil
      cases d' with
      | free =>
        right
        have hnew : Range.new (max Range.full.min c.min) (min Range.full.max c.max) =
            .error (.invalidRange 0 u64Max) := by
          rw [hmin, hmax]; exact if_pos (.inr ⟨rfl, rfl⟩)
        have hle : max Range.full.min (c.min : Nat) ≤ min Range.full.max c.max := by
          rw [hmin, hmax]; decide
        simp only [firstMatch, ok_bind, checkConstraint, NodeState.isFree, if_true, if_pos hle,
          hnew, error_bind]
      | allocated | valued v => left; rfl

theorem allocate_ok {r : Option Range} {t' : IntervalTree T} (hi : Inv t) (h : allocate checks t c = .ok (r, t')) :
    (r = none ∧ t' = t) ∨ (0 < (c.size : Nat) ∧ ∃ pre k post m, t.entries = pre ++ (k, .free) :: post ∧ Fits c k m ∧
      r = some (rangeAt c m) ∧ Inv t' ∧
      t'.entries = pre ++ (carve k (rangeAt c m) .allocated ++ post)) := by
  by_cases hc : ∀ e ∈ t.entries, ¬ AdmitsFull c e.1
  · rcases allocate_spec checks hi hc with
      ⟨hn, _⟩ | ⟨hsz, pre, k, post, m, he, hfit, _, ⟨_, hs, hi', he', _⟩ | ⟨_, _, herr⟩⟩
    · rw [hn] at h; cases h; exact .inl ⟨rfl, rfl⟩
    · rw [hs] at h; cases h; exact .inr ⟨hsz, pre, k, post, m, he, hfit, rfl, hi', he'⟩
    · rw [herr] at h; cases h
  · push Not at hc
    obtain ⟨⟨_, d⟩, hmem, rfl, hmin, hmax⟩ := hc
    rcases allocate_full checks hi.ordered hmem hmin hmax with hn | he
    · rw [hn] at h; cases h; exact .inl ⟨rfl, rfl⟩
    · rw [he] at h; cases h

theorem allocate_inv {r : Option Range} {t' : IntervalTree T} (hi : Inv t)
    (h : allocate checks t c = .ok (r, t')) : Inv t' := by
  cases allocate_ok hi h with
  | inl hn => rw [hn.2]; exact hi
  | inr hs =>
    obtain ⟨_, _, _, _, _, _, _, _, hi', _⟩ := hs
    exact hi'

theorem allocate_error {p : Panic} (hi : Inv t) (h : allocate checks t c = .error p) : p.IsArith := by
  by_cases hc : ∀ e ∈ t.entries, ¬ AdmitsFull c e.1
  · rcases allocate_spec checks hi hc with
      ⟨hn, _⟩ | ⟨_, _, _, _, _, _, _, _, ⟨_, hs, _⟩ | ⟨_, _, he⟩⟩
    · rw [hn] at h; cases h
    · rw [hs] at h; cases h
    · rw [he] at h; cases h; trivial
  · push Not at hc
    obtain ⟨⟨_, d⟩, hmem, rfl, hmin, hmax⟩ := hc
    rcases allocate_full checks hi.ordered hmem hmin hmax with hn | he
    · rw [hn] at h; cases h
    · rw [he] at h; cases h; trivial

end Result

end IntervalTree
end Kata.Allocator
