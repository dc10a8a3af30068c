import Mathlib.Data.List.Sort
import Kata.Allocator.Free

/-!
# Kata.Allocator.Ids

What an in-order list says about single ids, and when two lists that say the same are equal.

`idState es id` is the state of one id: unmanaged (`none`), or that of the entry that contains it.
The three changes of the list, cutting a range out of a free entry, merging a freed entry with its
free neighbours, and replacing the state of an entry, are described by what they do to ids
(`idState_carve`, `idState_merged`, `idState_set_isSome`).

`canonical`: in a list without adjacent free entries the free entries are the maximal intervals of
free ids. Such a list is determined by its free ids and its other entries.
-/

namespace Kata.Allocator

variable {T : Type}

def idState : List (Range × NodeState T) → Nat → Option (NodeState T)
  | [], _ => none
  | (k, st) :: es, id => if k.Has id then some st else idState es id

def Coalesced (es : List (Range × NodeState T)) : Prop :=
  ∀ a ∈ es, ∀ b ∈ es, a.2 = .free → b.2 = .free → a.1.max + 1 ≠ b.1.min

section IdState

variable {es es' : List (Range × NodeState T)} {e : Range × NodeState T} {st : NodeState T} {id : Nat}

@[simp] theorem idState_nil : idState ([] : List (Range × NodeState T)) id = none := rfl

@[simp] theorem idState_cons {k : Range} :
    idState ((k, st) :: es) id = if k.Has id then some st else idState es id := rfl

@[simp] theorem idState_append : idState (es ++ es') id = (idState es id).or (idState es' id) := by
  induction es with
  | nil => simp
  | cons e es ih =>
    obtain ⟨k, st⟩ := e
    by_cases h : k.Has id
    · simp [h]
    · simp [h, ih]

theorem idState_eq_none : idState es id = none ↔ ∀ e ∈ es, ¬ e.1.Has id := by
  induction es with
  | nil => simp
  | cons e es ih =>
    obtain ⟨k, st⟩ := e
    by_cases h : k.Has id
    · simp [h]
    · simp [h, ih]

theorem mem_of_idState (h : idState es id = some st) : ∃ k, (k, st) ∈ es ∧ k.Has id := by
  induction es with
  | nil => simp at h
  | cons e es ih =>
    obtain ⟨k, st'⟩ := e
    by_cases hk : k.Has id
    · simp only [idState_cons, hk, if_true, Option.some.injEq] at h
      exact ⟨k, by simp [h], hk⟩
    · simp only [idState_cons, hk, if_false] at h
      obtain ⟨k', hmem, hid⟩ := ih h
      exact ⟨k', by simp [hmem], hid⟩

theorem idState_of_mem (ho : Ordered es) (he : e ∈ es) (hid : e.1.Has id) : idState es id = some e.2 := by
  cases h : idState es id with
  | none => exact absurd hid (idState_eq_none.mp h e he)
  | some st =>
    obtain ⟨k, hmem, hk⟩ := mem_of_idState h
    rw [← ho.eq_of_has hmem he hk hid]

theorem idState_free_iff (ho : Ordered es) :
    idState es id = some .free ↔
      idState es id ≠ none ∧ ∀ e ∈ es, e.2 ≠ .free → ¬ e.1.Has id := by
  constructor
  · intro h
    refine ⟨by simp [h], ?_⟩
    intro e he hne hid
    rw [idState_of_mem ho he hid] at h
    exact hne (Option.some.inj h)
  · intro ⟨hsome, hno⟩
    cases h : idState es id with
    | none => exact absurd h hsome
    | some st =>
      obtain ⟨k, hmem, hid⟩ := mem_of_idState h
      by_cases hst : st = .free
      · rw [hst]
      · exact absurd hid (hno (k, st) hmem hst)

end IdState

/-! ## The canonical form -/

section Canonical

variable {es es' : List (Range × NodeState T)} {k k' : Range} {id : Nat}

theorem Coalesced.not_free_above (hc : Coalesced es) (ho : Ordered es) (hk : (k, .free) ∈ es) :
    idState es (k.max + 1) ≠ some .free := by
  intro h
  obtain ⟨k', hk', hid⟩ := mem_of_idState h
  have h1 := hid.1
  have h2 := hid.2
  have hw : k.min ≤ k.max := (ho.1 _ hk).min_le_max
  by_cases hin : k'.min ≤ k.max
  · -- then the two entries share the id `k.max`
    have hid' : k'.Has k.max := ⟨hin, by omega⟩
    have heq := ho.eq_of_has hk hk' ⟨hw, Nat.le_refl _⟩ hid'
    have hkk : k = k' := congrArg Prod.fst heq
    rw [← hkk] at h2
    omega
  · exact hc _ hk _ hk' rfl rfl (by simp only; omega)

theorem Coalesced.not_free_below (hc : Coalesced es) (ho : Ordered es) (hk : (k, .free) ∈ es)
    (h0 : 0 < k.min) : idState es (k.min - 1) ≠ some .free := by
  intro h
  obtain ⟨k', hk', hid⟩ := mem_of_idState h
  have h1 := hid.1
  have h2 := hid.2
  have hw : k.min ≤ k.max := (ho.1 _ hk).min_le_max
  by_cases hin : k.min ≤ k'.max
  · have hid' : k'.Has k.min := ⟨by omega, hin⟩
    have heq := ho.eq_of_has hk hk' ⟨Nat.le_refl _, hw⟩ hid'
    have hkk : k = k' := congrArg Prod.fst heq
    rw [← hkk] at h1
    omega
  · exact hc _ hk' _ hk rfl rfl (by simp only; omega)

/-- Two free entries with a common id are equal if the free ids are: both are the maximal interval
of free ids around it. -/
theorem free_key_unique (ho : Ordered es) (ho' : Ordered es') (hc : Coalesced es) (hc' : Coalesced es')
    (hfree : ∀ id, idState es id = some .free ↔ idState es' id = some .free)
    (hk : (k, .free) ∈ es) (hk' : (k', .free) ∈ es') (hid : k.Has id) (hid' : k'.Has id) : k = k' := by
  have h1 := hid.1
  have h2 := hid.2
  have h3 := hid'.1
  have h4 := hid'.2
  -- neither of the two can stick out of the other on either side
  have hfor : ∀ x, k.Has x → idState es' x = some .free := fun x hx =>
    (hfree x).mp (idState_of_mem ho hk hx)
  have hback : ∀ x, k'.Has x → idState es x = some .free := fun x hx =>
    (hfree x).mpr (idState_of_mem ho' hk' hx)
  have hmax1 : ¬ k.max < k'.max := fun hlt =>
    hc.not_free_above ho hk (hback _ ⟨by omega, by omega⟩)
  have hmax2 : ¬ k'.max < k.max := fun hlt =>
    hc'.not_free_above ho' hk' (hfor _ ⟨by omega, by omega⟩)
  have hmin1 : ¬ k'.min < k.min := fun hlt =>
    hc.not_free_below ho hk (by omega) (hback _ ⟨by omega, by omega⟩)
  have hmin2 : ¬ k.min < k'.min := fun hlt =>
    hc'.not_free_below ho' hk' (by omega) (hfor _ ⟨by omega, by omega⟩)
  obtain ⟨a, b⟩ := k
  obtain ⟨c, d⟩ := k'
  simp only [Range.mk.injEq]
  simp only at hmax1 hmax2 hmin1 hmin2
  omega

theorem mem_of_canonical (ho : Ordered es) (ho' : Ordered es') (hc : Coalesced es) (hc' : Coalesced es')
    (hfree : ∀ id, idState es id = some .free ↔ idState es' id = some .free)
    (hbusy : ∀ e, e.2 ≠ NodeState.free → (e ∈ es ↔ e ∈ es')) {e : Range × NodeState T} (he : e ∈ es) : e ∈ es' := by
  obtain ⟨k, st⟩ := e
  by_cases hst : st = .free
  · subst hst
    have hw := ho.1 _ he
    have hid : k.Has k.min := ⟨Nat.le_refl _, hw.min_le_max⟩
    obtain ⟨k', hk', hid'⟩ := mem_of_idState ((hfree k.min).mp (idState_of_mem ho he hid))
    rw [free_key_unique ho ho' hc hc' hfree he hk' hid hid']
    exact hk'
  · exact (hbusy (k, st) hst).mp he

theorem Ordered.pairwise_min (ho : Ordered es) : es.Pairwise fun a b => a.1.min < b.1.min := by
  refine ho.2.imp_of_mem ?_
  intro a b ha _ hab
  exact Nat.lt_of_le_of_lt (ho.1 a ha).min_le_max hab

theorem canonical (ho : Ordered es) (ho' : Ordered es') (hc : Coalesced es) (hc' : Coalesced es')
    (hfree : ∀ id, idState es id = some .free ↔ idState es' id = some .free)
    (hbusy : ∀ e, e.2 ≠ NodeState.free → (e ∈ es ↔ e ∈ es')) : es = es' := by
  have hmem : ∀ e, e ∈ es ↔ e ∈ es' := by
    intro e
    constructor
    · exact mem_of_canonical ho ho' hc hc' hfree hbusy
    · exact mem_of_canonical ho' ho hc' hc (fun id => (hfree id).symm)
        (fun e he => (hbusy e he).symm)
  have hanti : Std.Antisymm fun a b : Range × NodeState T => a.1.min < b.1.min :=
    ⟨fun a b h1 h2 => absurd h1 (Nat.lt_asymm h2)⟩
  have hirr : Std.Irrefl fun a b : Range × NodeState T => a.1.min < b.1.min :=
    ⟨fun a => Nat.lt_irrefl _⟩
  exact ho.pairwise_min.eq_of_mem_iff ho'.pairwise_min hmem

end Canonical

/-! ## Cutting a range out of a free entry -/

section Carve

variable {pre post : List (Range × NodeState T)} {k r : Range} {st : NodeState T}

theorem idState_carve (ho : Ordered (pre ++ (k, .free) :: post)) (hr : r.Wf) (h1 : k.min ≤ r.min)
    (h2 : r.max ≤ k.max) (id : Nat) :
    idState (pre ++ (carve k r st ++ post)) id =
      if r.Has id then some st else idState (pre ++ (k, .free) :: post) id := by
  have hle := hr.min_le_max
  by_cases hid : r.Has id
  · have hid1 := hid.1
    have hid2 := hid.2
    have hpre : idState pre id = none := by
      refine idState_eq_none.mpr ?_
      intro a ha hida
      have hb : a.1.max < k.min := ho.before_of_mem_left ha
      have := hida.2
      omega
    have hbelow : idState (below k r : List (Range × NodeState T)) id = none := by
      unfold below
      split
      · rw [idState_cons, if_neg (by simp only [Range.has_iff]; omega)]
        rfl
      · rfl
    simp [carve, hpre, hbelow, hid]
  · have hmid : idState (carve k r st) id = if k.Has id then some .free else none := by
      simp only [carve, below, above, Range.has_iff] at hid ⊢
      split <;> split <;> simp only [idState_append, idState_cons, idState_nil, Range.has_iff] <;>
        split_ifs <;> first | rfl | omega
    simp only [hid, if_false, idState_append, hmid, idState_cons]
    split <;> simp

theorem busy_carve {e : Range × NodeState T} (he : e.2 ≠ .free) :
    e ∈ pre ++ (carve k r st ++ post) ↔ e ∈ pre ++ (k, .free) :: post ∨ e = (r, st) := by
  have hb : e ∉ (below k r : List (Range × NodeState T)) := by
    unfold below
    split
    · intro h
      rw [List.mem_singleton] at h
      rw [h] at he
      exact he rfl
    · simp
  have ha : e ∉ (above k r : List (Range × NodeState T)) := by
    unfold above
    split
    · intro h
      rw [List.mem_singleton] at h
      rw [h] at he
      exact he rfl
    · simp
  have hk : e ≠ (k, .free) := by
    intro h
    rw [h] at he
    exact he rfl
  simp only [carve, List.mem_append, List.mem_cons, hb, ha, hk]
  tauto

/-- The free entries after the cut: those from before, except `k`, and the two rests of `k`. -/
theorem free_of_carve (ho : Ordered (pre ++ (k, .free) :: post)) (hst : st ≠ .free)
    {e : Range × NodeState T} (he : e ∈ pre ++ (carve k r st ++ post)) (hf : e.2 = .free) :
    (e ∈ pre ++ (k, .free) :: post ∧ (e.1.max < k.min ∨ k.max < e.1.min)) ∨
    (k.min < r.min ∧ e.1.min = k.min ∧ e.1.max + 1 = r.min) ∨
    (r.max < k.max ∧ e.1.min = r.max + 1 ∧ e.1.max = k.max) := by
  simp only [carve, List.mem_append, List.mem_cons] at he
  rcases he with he | (he | he | he) | he
  · exact .inl ⟨by simp [he], .inl (ho.before_of_mem_left he)⟩
  · refine .inr (.inl ?_)
    unfold below at he
    split at he
    · rename_i hlt
      rw [List.mem_singleton] at he
      subst he
      exact ⟨hlt, rfl, by simp only; omega⟩
    · simp at he
  · subst he
    exact absurd hf hst
  · refine .inr (.inr ?_)
    unfold above at he
    split at he
    · rename_i hlt
      rw [List.mem_singleton] at he
      subst he
      exact ⟨hlt, rfl, rfl⟩
    · simp at he
  · exact .inl ⟨by simp [he], .inr (ho.before_of_mem_right he)⟩

theorem coalesced_carve (ho : Ordered (pre ++ (k, .free) :: post))
    (hc : Coalesced (pre ++ (k, .free) :: post)) (hst : st ≠ .free) (hr : r.Wf)
    (h1 : k.min ≤ r.min) (h2 : r.max ≤ k.max) : Coalesced (pre ++ (carve k r st ++ post)) := by
  intro a ha b hb hfa hfb
  have hle := hr.min_le_max
  have hkmem : (k, .free) ∈ pre ++ (k, .free) :: post := by simp
  rcases free_of_carve ho hst ha hfa with ⟨hma, hda⟩ | hda | hda <;>
    rcases free_of_carve ho hst hb hfb with ⟨hmb, hdb⟩ | hdb | hdb
  · exact hc a hma b hmb hfa hfb
  · have hadj : a.1.max + 1 ≠ k.min := hc a hma _ hkmem hfa rfl
    omega
  · have := (ho.1 a hma).min_le_max
    omega
  · have := (ho.1 b hmb).min_le_max
    omega
  · omega
  · omega
  · have hadj : k.max + 1 ≠ b.1.min := hc _ hkmem b hmb rfl hfb
    omega
  · omega
  · omega

end Carve

/-! ## Merging a freed entry -/

section Merged

variable {pre post pre' post' : List (Range × NodeState T)} {k : Range} {st : NodeState T}
  {lo hi : Nat}

theorem idState_merged (ho : Ordered (pre ++ (k, st) :: post)) (hl : LeftMerge k pre pre' lo)
    (hr : RightMerge k post post' hi) (id : Nat) :
    idState (pre' ++ (⟨lo, hi⟩, .free) :: post') id =
      if k.Has id then some .free else idState (pre ++ (k, st) :: post) id := by
  have hlo := hl.le
  have hhi := hr.ge
  have hk : k.min ≤ k.max := (ho.1 (k, st) (by simp)).min_le_max
  by_cases hid : k.Has id
  · have h1 := hid.1
    have h2 := hid.2
    have hmem : (⟨lo, hi⟩, .free) ∈ pre' ++ ((⟨lo, hi⟩ : Range), (.free : NodeState T)) :: post' := by
      simp
    rw [if_pos hid]
    exact idState_of_mem (ordered_merged ho hl hr) hmem ⟨by simp only; omega, by simp only; omega⟩
  · simp only [hid, if_false, idState_append, idState_cons]
    simp only [Range.has_iff] at hid
    cases hl with
    | keep =>
      cases hr with
      | keep => rw [if_neg (by simpa only [Range.has_iff] using hid)]
      | join hlt =>
        simp only [idState_cons, Range.has_iff]
        congr 1
        split_ifs <;> first | rfl | omega
    | join hlt =>
      cases hr with
      | keep | join hlt' =>
        simp only [idState_append, idState_cons, idState_nil, Range.has_iff, Option.or_assoc]
        congr 1
        split_ifs <;> first | rfl | omega

variable {e : Range × NodeState T}

theorem LeftMerge.busy (h : LeftMerge k pre pre' lo) (he : e.2 ≠ .free) : e ∈ pre' ↔ e ∈ pre := by
  cases h with
  | keep => exact Iff.rfl
  | join =>
    have hne : e ≠ (⟨lo, k.min - 1⟩, .free) := by
      intro h
      rw [h] at he
      exact he rfl
    simp [hne]

theorem RightMerge.busy (h : RightMerge k post post' hi) (he : e.2 ≠ .free) : e ∈ post' ↔ e ∈ post := by
  cases h with
  | keep => exact Iff.rfl
  | join =>
    have hne : e ≠ (⟨k.max + 1, hi⟩, .free) := by
      intro h
      rw [h] at he
      exact he rfl
    simp [hne]

theorem Ordered.ne_key (ho : Ordered (pre ++ (k, st) :: post)) (he : e ∈ pre ++ post) : e.1 ≠ k := by
  intro h
  have hk : k.min ≤ k.max := (ho.1 (k, st) (by simp)).min_le_max
  cases List.mem_append.mp he with
  | inl he =>
    have hb : e.1.max < k.min := ho.before_of_mem_left he
    rw [h] at hb
    omega
  | inr he =>
    have hb : k.max < e.1.min := ho.before_of_mem_right he
    rw [h] at hb
    omega

theorem busy_merged (ho : Ordered (pre ++ (k, st) :: post)) (hl : LeftMerge k pre pre' lo)
    (hr : RightMerge k post post' hi) (he : e.2 ≠ .free) :
    e ∈ pre' ++ (⟨lo, hi⟩, .free) :: post' ↔ e ∈ pre ++ (k, st) :: post ∧ e.1 ≠ k := by
  have hne : e ≠ (⟨lo, hi⟩, .free) := by
    intro h
    rw [h] at he
    exact he rfl
  have hkey := fun h => ho.ne_key (e := e) h
  simp only [List.mem_append, List.mem_cons, hne, false_or, hl.busy he, hr.busy he] at hkey ⊢
  constructor
  · intro h
    exact ⟨by tauto, hkey h⟩
  · intro ⟨h, hk⟩
    have : e ≠ (k, st) := fun h => hk (congrArg Prod.fst h)
    tauto

theorem LeftMerge.not_adj (hc : Coalesced (pre ++ (k, st) :: post)) (h : LeftMerge k pre pre' lo) :
    ∀ a ∈ pre', a.2 = .free → a.1.max + 1 ≠ lo := by
  intro a ha hf
  cases h with
  | keep hno => exact fun hadj => hno a ha hadj hf
  | join hlt => exact hc a (by simp [ha]) (⟨lo, k.min - 1⟩, .free) (by simp) hf rfl

theorem RightMerge.not_adj (hc : Coalesced (pre ++ (k, st) :: post))
    (h : RightMerge k post post' hi) : ∀ b ∈ post', b.2 = .free → hi + 1 ≠ b.1.min := by
  intro b hb hf
  cases h with
  | keep hno => exact fun hadj => hno b hb hadj hf
  | join hlt => exact hc (⟨k.max + 1, hi⟩, .free) (by simp) b (by simp [hb]) rfl hf

theorem coalesced_merged (ho : Ordered (pre ++ (k, st) :: post))
    (hc : Coalesced (pre ++ (k, st) :: post)) (hl : LeftMerge k pre pre' lo)
    (hr : RightMerge k post post' hi) : Coalesced (pre' ++ (⟨lo, hi⟩, .free) :: post') := by
  have hom := ordered_merged ho hl hr
  have hold : ∀ e, e ∈ pre' ∨ e ∈ post' → e ∈ pre ++ (k, st) :: post := by
    intro e he
    cases he with
    | inl he => simp [hl.sublist.subset he]
    | inr he => simp [hr.sublist.subset he]
  have hle : lo ≤ hi := (hom.1 (⟨lo, hi⟩, .free) (by simp)).min_le_max
  intro a ha b hb hfa hfb
  simp only [List.mem_append, List.mem_cons] at ha hb
  rcases ha with ha | rfl | ha <;> rcases hb with hb | rfl | hb
  · exact hc a (hold a (.inl ha)) b (hold b (.inl hb)) hfa hfb
  · exact hl.not_adj hc a ha hfa
  · exact hc a (hold a (.inl ha)) b (hold b (.inr hb)) hfa hfb
  · have hbef : b.1.max < lo := hom.before_of_mem_left hb
    have := (ho.1 b (hold b (.inl hb))).min_le_max
    simp only
    omega
  · simp only
    omega
  · exact hr.not_adj hc b hb hfb
  · exact hc a (hold a (.inr ha)) b (hold b (.inl hb)) hfa hfb
  · have hbef : hi < a.1.min := hom.before_of_mem_right ha
    have := (ho.1 a (hold a (.inr ha))).min_le_max
    simp only
    omega
  · exact hc a (hold a (.inr ha)) b (hold b (.inr hb)) hfa hfb

end Merged

/-! ## Replacing the state of an entry -/

section Set

variable {pre post : List (Range × NodeState T)} {k : Range} {st st' : NodeState T}

theorem idState_set_isSome (id : Nat) :
    (idState (pre ++ (k, st') :: post) id).isSome = (idState (pre ++ (k, st) :: post) id).isSome := by
  simp only [idState_append, idState_cons]
  cases idState pre id with
  | none => by_cases h : k.Has id <;> simp [h]
  | some _ => rfl

theorem coalesced_set (hc : Coalesced (pre ++ (k, st) :: post)) (hst : st' ≠ .free) :
    Coalesced (pre ++ (k, st') :: post) := by
  have hold : ∀ e ∈ pre ++ (k, st') :: post, e.2 = .free → e ∈ pre ++ (k, st) :: post := by
    intro e he hf
    simp only [List.mem_append, List.mem_cons] at he ⊢
    rcases he with he | rfl | he
    · exact .inl he
    · exact absurd hf hst
    · exact .inr (.inr he)
  intro a ha b hb hfa hfb
  exact hc a (hold a ha hfa) b (hold b hb hfb) hfa hfb

end Set

end Kata.Allocator
