import Kata.Allocator.Calls

/-!
# Kata.Allocator.Undo

`free` undoes `allocate`, and no two free nodes become adjacent.

One step is described by its effect on the entries that are not free, on the set of managed ids, and
on coalescing (`allocEffect`, `updateEffect`, `freeEffect`). Since a coalesced list is determined by
its managed ids and its other entries (`canonical`), a free of `r` restores the list from before the
allocation as soon as the entries other than `r` are what they were.

"Undone" has two readings, and both are proved. `Restored` compares states: what is not free, apart
from `r`, is as before. `Undoes` is about the calls: in between, each range that is allocated is
freed again, and only `r` and those ranges are updated.
-/

namespace Kata.Allocator

open Lib

variable {T : Type}

/-- A call together with what `allocate` returned. -/
inductive Event (T : Type) where
  | allocate (c : Constraint) (r : Option Range)
  | update (key : Range) (data : T)
  | free (key : Range)

def Busy (t : IntervalTree T) (key : Range) : Prop := ∃ st, st ≠ .free ∧ (key, st) ∈ t.entries

def Event.Step (checks : Bool) (t : IntervalTree T) : Event T → IntervalTree T → Prop
  | .allocate c r, t' => IntervalTree.allocate checks t c = .ok (r, t')
  | .update key data, t' => ∃ old, t.update key data = .ok (old, t')
  | .free key, t' => Busy t key ∧ ∃ old, IntervalTree.free checks t key = .ok (old, t')

/-! ## One step -/

section Allocated

variable {checks : Bool} {t t' : IntervalTree T} {c : Constraint} {r : Range}

/-- The effect of an `allocate` that returns `r`: the range was free, and is the only new entry that
is not free. -/
structure AllocEffect (t : IntervalTree T) (r : Range) (t' : IntervalTree T) : Prop where
  inv : t'.Inv
  coalesced : Coalesced t.entries → Coalesced t'.entries
  managed : ∀ id, (idState t'.entries id).isSome = (idState t.entries id).isSome
  fresh : ¬ Busy t r
  busy : ∀ e, e.2 ≠ .free → (e ∈ t'.entries ↔ e ∈ t.entries ∨ e = (r, .allocated))

theorem allocEffect (hi : t.Inv) (h : IntervalTree.allocate checks t c = .ok (some r, t')) : AllocEffect t r t' := by
  cases IntervalTree.allocate_ok hi h with
  | inl hn => cases hn.1
  | inr hs =>
    obtain ⟨hsz, pre, k, post, m, he, hfit, hr, hi', he'⟩ := hs
    obtain rfl : r = IntervalTree.rangeAt c m := Option.some.inj hr
    have ho : Ordered (pre ++ (k, .free) :: post) := he ▸ hi.ordered
    have hkw : k.Wf := ho.1 (k, .free) (by simp)
    have hkmax := hkw.max_le
    have hle := hfit.le_max
    have hrw : (IntervalTree.rangeAt c m).Wf := IntervalTree.rangeAt_wf hsz (by omega)
    have hin : (IntervalTree.rangeAt c m).max ≤ k.max := by
      simp only [IntervalTree.rangeAt]; omega
    refine ⟨hi', ?_, ?_, ?_, ?_⟩
    · intro hc
      rw [he] at hc
      rw [he']
      exact coalesced_carve ho hc (by simp) hrw hfit.min_le hin
    · intro id
      rw [he', he, idState_carve ho hrw hfit.min_le hin]
      split
      · -- an id of the new range was an id of `k`
        rename_i hid
        have h1 := Nat.le_trans hfit.min_le hid.1
        have h2 := Nat.le_trans hid.2 hin
        rw [idState_of_mem ho (e := (k, .free)) (by simp) ⟨h1, h2⟩]
        rfl
      · rfl
    · intro hbusy
      obtain ⟨st, hst, hmem⟩ := hbusy
      have hkmem : (k, .free) ∈ t.entries := by simp [he]
      have hid : k.Has m := ⟨hfit.min_le, by omega⟩
      have heq := hi.ordered.eq_of_has hmem hkmem ⟨Nat.le_refl _, hrw.min_le_max⟩ hid
      exact hst (congrArg Prod.snd heq)
    · intro e hne
      rw [he', he]
      exact busy_carve hne

end Allocated

section Updated

variable {t t' : IntervalTree T} {key : Range} {data : T} {old : Option T}

theorem updateEffect (hi : t.Inv) (h : t.update key data = .ok (old, t')) :
    t'.Inv ∧ (Coalesced t.entries → Coalesced t'.entries) ∧
    (∀ id, (idState t'.entries id).isSome = (idState t.entries id).isSome) ∧ (∀ k, Busy t k → Busy t' k) ∧
    (∀ e, e.2 ≠ .free → e.1 ≠ key → (e ∈ t'.entries ↔ e ∈ t.entries)) := by
  by_cases hex : ∃ st, (key, st) ∈ t.entries
  · obtain ⟨st, hmem⟩ := hex
    obtain ⟨pre, post, he⟩ := List.append_of_mem hmem
    have ho : Ordered (pre ++ (key, st) :: post) := he ▸ hi.ordered
    by_cases hst : Tree.updateRefused st (.valued data) = false
    · obtain ⟨t1, ht1, ha1, _, _, he1⟩ := Tree.update_spec _ hst hi.avl hi.ordered he
      have heq : Except.ok (st.toOption, t1) = Except.ok (old, t') := ht1.symm.trans h
      cases heq
      rw [he, he1]
      refine ⟨⟨ha1, by rw [he1]; exact ho.set _⟩, fun hc => coalesced_set hc (by simp),
        idState_set_isSome, ?_, ?_⟩
      · intro k hk
        obtain ⟨st', hst', hmem'⟩ := hk
        by_cases hkey : k = key
        · subst hkey
          exact ⟨.valued data, by simp, by simp [he1]⟩
        · rw [he] at hmem'
          simp only [List.mem_append, List.mem_cons, Prod.mk.injEq, hkey, false_and, false_or] at hmem'
          exact ⟨st', hst', by rw [he1]; simp only [List.mem_append, List.mem_cons]; tauto⟩
      · intro e _ hne
        have hn1 : e ≠ (key, .valued data) := fun h => hne (congrArg Prod.fst h)
        have hn2 : e ≠ (key, st) := fun h => hne (congrArg Prod.fst h)
        simp [hn1, hn2]
    · -- the state of a free node is not replaced: the call panics
      rw [Bool.not_eq_false] at hst
      have herr : t.update key data = .error .updateUnallocated :=
        Tree.update_refused hst hi.ordered he
      rw [herr] at h
      cases h
  · have hmiss : t.update key data = .ok (none, t) := by
      refine Tree.update_missing ?_
      intro e he hk
      exact hex ⟨e.2, by rw [← hk]; exact he⟩
    rw [hmiss] at h
    cases h
    exact ⟨hi, id, fun _ => rfl, fun _ => id, fun _ _ _ => Iff.rfl⟩

end Updated

section Freed

variable {t : IntervalTree T} {key : Range}

theorem freeEffect (checks : Bool) (hi : t.Inv) (hb : Busy t key) :
    ∃ old t', IntervalTree.free checks t key = .ok (old, t') ∧ t'.Inv ∧
      (Coalesced t.entries → Coalesced t'.entries) ∧
      (∀ id, (idState t'.entries id).isSome = (idState t.entries id).isSome) ∧
      (∀ e, e.2 ≠ .free → (e ∈ t'.entries ↔ e ∈ t.entries ∧ e.1 ≠ key)) := by
  obtain ⟨st, _, hmem⟩ := hb
  obtain ⟨pre, post, he⟩ := List.append_of_mem hmem
  have ho : Ordered (pre ++ (key, st) :: post) := he ▸ hi.ordered
  obtain ⟨t', pre', post', lo, top, ht', hl, hr, hi', he'⟩ :=
    IntervalTree.free_spec checks hi he
  refine ⟨st.toOption, t', ht', hi', ?_, ?_, ?_⟩
  · intro hc
    rw [he] at hc
    rw [he']
    exact coalesced_merged ho hc hl hr
  · intro id
    rw [he', he, idState_merged ho hl hr]
    split
    · rename_i hid
      rw [idState_of_mem ho (e := (key, st)) (by simp) hid]
      rfl
    · rfl
  · intro e hne
    rw [he', he]
    exact busy_merged ho hl hr hne

end Freed

/-! ## Runs -/

section Runs

variable {checks : Bool} {t t' : IntervalTree T}

/-- What every step keeps, relative to the tree `t0` that the run starts from. -/
structure SameIds (t0 t : IntervalTree T) : Prop where
  inv : t.Inv
  coalesced : Coalesced t.entries
  managed : ∀ id, (idState t.entries id).isSome = (idState t0.entries id).isSome

theorem SameIds.step {t0 : IntervalTree T} {ev : Event T} (hs : SameIds t0 t)
    (h : ev.Step checks t t') : SameIds t0 t' := by
  cases ev with
  | allocate c r =>
    cases r with
    | none =>
      cases IntervalTree.allocate_ok hs.inv h with
      | inl hn => rw [hn.2]; exact hs
      | inr hs' =>
        obtain ⟨_, _, _, _, _, _, _, hr, _⟩ := hs'
        cases hr
    | some r =>
      have he := allocEffect hs.inv h
      exact ⟨he.inv, he.coalesced hs.coalesced, fun id => (he.managed id).trans (hs.managed id)⟩
  | update key data =>
    obtain ⟨old, h⟩ := h
    obtain ⟨hi', hc', hm', _, _⟩ := updateEffect hs.inv h
    exact ⟨hi', hc' hs.coalesced, fun id => (hm' id).trans (hs.managed id)⟩
  | free key =>
    obtain ⟨hb, old, h⟩ := h
    obtain ⟨old', t1, h1, hi', hc', hm', _⟩ := freeEffect checks hs.inv hb
    rw [h1] at h
    cases h
    exact ⟨hi', hc' hs.coalesced, fun id => (hm' id).trans (hs.managed id)⟩

theorem SameIds.run {t0 : IntervalTree T} {evs : List (Event T)} (hs : SameIds t0 t)
    (h : Run (fun t ev t' => ev.Step checks t t') t evs t') : SameIds t0 t' :=
  h.invariant (fun _ _ _ hs hstep => hs.step hstep) hs

end Runs

/-- `r` is in use and, apart from `r`, what is in use in `t` is what was in use in `t0`. -/
def Restored (t0 : IntervalTree T) (r : Range) (t : IntervalTree T) : Prop :=
  Busy t r ∧ ∀ e, e.2 ≠ .free → e.1 ≠ r → (e ∈ t.entries ↔ e ∈ t0.entries)

/-- With the ranges `live` allocated so far, the calls free every range they allocate, and update
only `r` and ranges that they have allocated. -/
def Undoes (r : Range) : List Range → List (Event T) → Prop
  | live, [] => live = []
  | live, .allocate _ none :: evs => Undoes r live evs
  | live, .allocate _ (some k) :: evs => Undoes r (k :: live) evs
  | live, .update k _ :: evs => (k = r ∨ k ∈ live) ∧ Undoes r live evs
  | live, .free k :: evs => k ∈ live ∧ Undoes r (live.erase k) evs

section Ledger

variable {checks : Bool} {t0 t t' : IntervalTree T} {r : Range} {live : List Range}

/-- The invariant of an undoing run: the entries in use are those of `t0`, `r`, and the live ranges. -/
structure Ledger (t0 : IntervalTree T) (r : Range) (live : List Range) (t : IntervalTree T) : Prop where
  inv : t.Inv
  busy : Busy t r
  live_busy : ∀ k ∈ live, Busy t k ∧ k ≠ r ∧ ¬ Busy t0 k
  nodup : live.Nodup
  same : ∀ e, e.2 ≠ .free → e.1 ≠ r → e.1 ∉ live → (e ∈ t.entries ↔ e ∈ t0.entries)

theorem Busy.of_iff {key k : Range} (h : ∀ e : Range × NodeState T, e.2 ≠ .free → e.1 ≠ key →
    (e ∈ t'.entries ↔ e ∈ t.entries)) (hk : k ≠ key) (hb : Busy t k) : Busy t' k := by
  obtain ⟨st, hst, hmem⟩ := hb
  exact ⟨st, hst, (h (k, st) hst hk).mpr hmem⟩

theorem Ledger.allocate {c : Constraint} {k : Range} (hl : Ledger t0 r live t)
    (h : IntervalTree.allocate checks t c = .ok (some k, t')) : Ledger t0 r (k :: live) t' := by
  have he := allocEffect hl.inv h
  have hkeep : ∀ q, Busy t q → Busy t' q := by
    intro q hq
    obtain ⟨st, hst, hmem⟩ := hq
    exact ⟨st, hst, (he.busy (q, st) hst).mpr (.inl hmem)⟩
  have hkr : k ≠ r := fun heq => he.fresh (heq ▸ hl.busy)
  have hklive : k ∉ live := fun hmem => he.fresh (hl.live_busy k hmem).1
  have hnew : Busy t' k := ⟨.allocated, by simp, (he.busy _ (by simp)).mpr (.inr rfl)⟩
  have hk0 : ¬ Busy t0 k := by
    intro hb
    obtain ⟨st, hst, hmem⟩ := hb
    exact he.fresh ⟨st, hst, (hl.same (k, st) hst hkr hklive).mpr hmem⟩
  refine ⟨he.inv, hkeep r hl.busy, ?_, List.nodup_cons.mpr ⟨hklive, hl.nodup⟩, ?_⟩
  · intro q hq
    cases List.mem_cons.mp hq with
    | inl heq => rw [heq]; exact ⟨hnew, hkr, hk0⟩
    | inr hq =>
      obtain ⟨h1, h2, h3⟩ := hl.live_busy q hq
      exact ⟨hkeep q h1, h2, h3⟩
  · intro e hne her helive
    rw [List.mem_cons, not_or] at helive
    rw [he.busy e hne, hl.same e hne her helive.2]
    have hek : e ≠ (k, .allocated) := fun heq => helive.1 (congrArg Prod.fst heq)
    simp [hek]

theorem Ledger.update {key : Range} {data : T} {old : Option T} (hl : Ledger t0 r live t)
    (hkey : key = r ∨ key ∈ live) (h : t.update key data = .ok (old, t')) : Ledger t0 r live t' := by
  obtain ⟨hi', _, _, hkeep, hsame⟩ := updateEffect hl.inv h
  refine ⟨hi', hkeep r hl.busy, ?_, hl.nodup, ?_⟩
  · intro q hq
    obtain ⟨h1, h2, h3⟩ := hl.live_busy q hq
    exact ⟨hkeep q h1, h2, h3⟩
  · intro e hne her helive
    have hek : e.1 ≠ key := by
      intro heq
      cases hkey with
      | inl hr => exact her (heq.trans hr)
      | inr hmem => exact helive (heq ▸ hmem)
    rw [hsame e hne hek, hl.same e hne her helive]

theorem Ledger.free {key : Range} {old : Option T} (hl : Ledger t0 r live t) (hkey : key ∈ live)
    (h : IntervalTree.free checks t key = .ok (old, t')) : Ledger t0 r (live.erase key) t' := by
  obtain ⟨hb, hkr, hk0⟩ := hl.live_busy key hkey
  obtain ⟨old', t1, h1, hi', _, _, hbusy⟩ := freeEffect checks hl.inv hb
  rw [h1] at h
  cases h
  have hother : ∀ e : Range × NodeState T, e.2 ≠ .free → e.1 ≠ key →
      (e ∈ t'.entries ↔ e ∈ t.entries) := by
    intro e hne hek
    rw [hbusy e hne]
    exact ⟨And.left, fun hm => ⟨hm, hek⟩⟩
  refine ⟨hi', hl.busy.of_iff hother (Ne.symm hkr), ?_, hl.nodup.erase key, ?_⟩
  · intro q hq
    obtain ⟨hqk, hq⟩ := (List.Nodup.mem_erase_iff hl.nodup).mp hq
    obtain ⟨h1, h2, h3⟩ := hl.live_busy q hq
    exact ⟨h1.of_iff hother hqk, h2, h3⟩
  · intro e hne her helive
    by_cases hek : e.1 = key
    · -- neither tree has an entry in use with the key that has just been freed
      constructor
      · intro hm
        exact absurd hek ((hbusy e hne).mp hm).2
      · intro hm
        exact absurd ⟨e.2, hne, by rw [← hek]; exact hm⟩ hk0
    · have hnl : e.1 ∉ live := by
        intro hm
        exact helive ((List.Nodup.mem_erase_iff hl.nodup).mpr ⟨hek, hm⟩)
      rw [hother e hne hek, hl.same e hne her hnl]

theorem Ledger.restored {evs : List (Event T)} :
    ∀ {live : List Range} {t : IntervalTree T}, Ledger t0 r live t → Undoes r live evs →
      Run (fun t ev t' => ev.Step checks t t') t evs t' → Restored t0 r t' := by
  induction evs with
  | nil =>
    intro live t hl hu h
    cases h
    cases hu
    exact ⟨hl.busy, fun e hne her => hl.same e hne her (by simp)⟩
  | cons ev evs ih =>
    intro live t hl hu h
    cases h with
    | cons hstep hrest =>
      cases ev with
      | allocate c k =>
        cases k with
        | none =>
          cases IntervalTree.allocate_ok hl.inv hstep with
          | inl hn => exact ih hl hu (hn.2 ▸ hrest)
          | inr hs =>
            obtain ⟨_, _, _, _, _, _, _, hr, _⟩ := hs
            cases hr
        | some k => exact ih (hl.allocate hstep) hu hrest
      | update key data =>
        obtain ⟨old, hstep⟩ := hstep
        exact ih (hl.update hu.1 hstep) hu.2 hrest
      | free key =>
        obtain ⟨_, old, hstep⟩ := hstep
        exact ih (hl.free hu.1 hstep) hu.2 hrest

end Ledger

section Undo

variable {checks : Bool} {t t1 t2 : IntervalTree T} {c : Constraint} {r : Range}

theorem ledger_start (hi : t.Inv) (h : IntervalTree.allocate checks t c = .ok (some r, t1)) : Ledger t r [] t1 := by
  have he := allocEffect hi h
  refine ⟨he.inv, ⟨.allocated, by simp, (he.busy _ (by simp)).mpr (.inr rfl)⟩, by simp, by simp, ?_⟩
  intro e hne her _
  have hek : e ≠ (r, .allocated) := fun heq => her (congrArg Prod.fst heq)
  rw [he.busy e hne]
  simp [hek]

/-- A coalesced tree with the same ids, in which the same is in use, has the same list. -/
theorem SameIds.entries_eq (hs : SameIds t t2) (hi : t.Inv) (hc : Coalesced t.entries)
    (hbusy : ∀ e, e.2 ≠ NodeState.free → (e ∈ t2.entries ↔ e ∈ t.entries)) : t2.entries = t.entries := by
  have hmanaged : ∀ id, idState t2.entries id ≠ none ↔ idState t.entries id ≠ none := by
    intro id
    rw [← Option.isSome_iff_ne_none, ← Option.isSome_iff_ne_none, hs.managed id]
  refine canonical hs.inv.ordered hi.ordered hs.coalesced hc ?_ hbusy
  intro id
  rw [idState_free_iff hs.inv.ordered, idState_free_iff hi.ordered, hmanaged id]
  constructor
  · intro h
    exact ⟨h.1, fun e he hne => h.2 e ((hbusy e hne).mpr he) hne⟩
  · intro h
    exact ⟨h.1, fun e he hne => h.2 e ((hbusy e hne).mp he) hne⟩

theorem entries_of_restored (hi : t.Inv) (hc : Coalesced t.entries) (hfresh : ¬ Busy t r)
    (hs : SameIds t t2) (hr : Restored t r t2) :
    ∃ old t3, IntervalTree.free checks t2 r = .ok (old, t3) ∧ t3.entries = t.entries := by
  obtain ⟨old, t3, ht3, hi3, hc3, hm3, hb3⟩ := freeEffect checks hs.inv hr.1
  have hs3 : SameIds t t3 := ⟨hi3, hc3 hs.coalesced, fun id => (hm3 id).trans (hs.managed id)⟩
  refine ⟨old, t3, ht3, hs3.entries_eq hi hc ?_⟩
  intro e hne
  rw [hb3 e hne]
  constructor
  · intro h
    exact (hr.2 e hne h.2).mp h.1
  · intro h
    have her : e.1 ≠ r := fun heq => hfresh ⟨e.2, hne, by rw [← heq]; exact h⟩
    exact ⟨(hr.2 e hne her).mpr h, her⟩

end Undo

/-- From a coalesced tree, every run of `allocate`, `update` and `free` keeps it coalesced and
manages the same ids. When `allocate` returned `r` and everything done since has been undone, `free`
of `r` completes and gives back the in-order list from before the allocation. -/
theorem free_undoes_allocate (checks : Bool) {t : IntervalTree T} (hi : t.Inv) (hc : Coalesced t.entries) :
    (∀ (evs : List (Event T)) (t' : IntervalTree T),
      Run (fun t ev t' => ev.Step checks t t') t evs t' →
      Coalesced t'.entries ∧
        ∀ id, (idState t'.entries id).isSome = (idState t.entries id).isSome) ∧
    (∀ (c : Constraint) (r : Range) (t1 : IntervalTree T) (evs : List (Event T)) (t2 : IntervalTree T),
      IntervalTree.allocate checks t c = .ok (some r, t1) →
      Run (fun t ev t' => ev.Step checks t t') t1 evs t2 →
      (Restored t r t2 ∨ Undoes r [] evs) →
      ∃ old t3, IntervalTree.free checks t2 r = .ok (old, t3) ∧ t3.entries = t.entries) := by
  have hstart : SameIds t t := ⟨hi, hc, fun _ => rfl⟩
  constructor
  · intro evs t' h
    have hs := hstart.run h
    exact ⟨hs.coalesced, hs.managed⟩
  · intro c r t1 evs t2 ha h hu
    have hstep : (Event.allocate c (some r)).Step checks t t1 := ha
    have hs : SameIds t t1 := hstart.step hstep
    have hr : Restored t r t2 := by
      cases hu with
      | inl hr => exact hr
      | inr hu => exact (ledger_start hi ha).restored hu h
    exact entries_of_restored hi hc (allocEffect hi ha).fresh (hs.run h) hr

theorem free_undoes_allocate_interleaved :
    ∃ old t3, IntervalTree.free true
        (.node ⟨0, 3⟩ (.valued 7) .nil (.node ⟨4, 9⟩ .free .nil .nil 1 9) 2 9 : IntervalTree Nat)
        ⟨0, 3⟩ = .ok (old, t3) ∧ t3.entries = [(⟨0, 9⟩, .free)] := by
  have hi : IntervalTree.Inv (.node ⟨0, 9⟩ .free .nil .nil 1 9 : IntervalTree Nat) :=
    ⟨⟨trivial, trivial, rfl, rfl, by decide, by decide⟩,
      by simp [Ordered]; exact ⟨by decide, by decide⟩⟩
  have hc : Coalesced (.node ⟨0, 9⟩ .free .nil .nil 1 9 : IntervalTree Nat).entries := by
    simp [Coalesced]
  have h1 : IntervalTree.allocate true
      (.node ⟨0, 3⟩ .allocated .nil (.node ⟨4, 9⟩ .free .nil .nil 1 9) 2 9 : IntervalTree Nat)
      (.new 2) = .ok (some ⟨4, 5⟩, .node ⟨4, 5⟩ .allocated (.node ⟨0, 3⟩ .allocated .nil .nil 1 3)
        (.node ⟨6, 9⟩ .free .nil .nil 1 9) 2 9) := rfl
  exact (free_undoes_allocate true hi hc).2 (.new 4) ⟨0, 3⟩ _
    [.allocate (.new 2) (some ⟨4, 5⟩), .update ⟨0, 3⟩ 7, .free ⟨4, 5⟩] _ rfl
    (.cons h1 (.cons ⟨none, rfl⟩ (.cons ⟨⟨.allocated, by decide, by decide⟩, none, rfl⟩ .nil)))
    (.inr ⟨.inl rfl, by decide, rfl⟩)

end Kata.Allocator
