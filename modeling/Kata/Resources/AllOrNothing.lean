import Kata.Resources.Pools

/-!
# Kata.Resources.AllOrNothing

`allocate_device_resources` is meant to be all or nothing, and what it has allocated can be given
back with `free_device_resources`. This holds for exactly those requests that are not served with a
range that cannot be given back (`allocateDeviceResources_iff`):

* ports up to 0xffff: `free_pio_address` wants `base + size` in a `u16`;
* memory up to `GUEST_MEM_END`: `free_mem_address` wants `base + size` to be at most that, and the last id of the
  pool is `GUEST_MEM_END` itself;
* more than one memory slot: the resource has the first slot only, which `free` then does not find;
* a slot from 2^32 on, which the resource has without its upper bits.

The rollback in `allocate_device_resources` frees in the same way, so that a request that fails can
leave such a range allocated.
-/

namespace Kata.Resources.ResourceManager

open Allocator Lib

/-! ## The property -/

/-- The same ranges in every pool, in the same state. -/
def SamePools (m0 m : ResourceManager) : Prop := ∀ id, (m.pool id).entries = (m0.pool id).entries

/-- The call has no effect, or one that can be taken back; nothing panics. -/
inductive Settles (checks : Bool) (l : Layout) (m0 : ResourceManager) :
    Except Panic (Except ResourceError (List Resource) × ResourceManager) → Prop where
  | undone {e : ResourceError} {m : ResourceManager} : SamePools m0 m → Settles checks l m0 (.ok (.error e, m))
  | granted {resources : List Resource} {m m' : ResourceManager} :
      m.freeDeviceResources checks l resources = .ok (.ok (), m') → SamePools m0 m' →
      Settles checks l m0 (.ok (.ok resources, m))

/-! ## The condition -/

/-- The range from `s` on can be given back. -/
def Returnable (l : Layout) (c : Constraint) (s : Nat) : PoolId → Prop
  | .pio => s + c.size ≤ pioMax
  | .mem => s + c.size ≤ l.guestMemEnd
  | .kvmMemSlot => (c.size : Nat) = 1 ∧ s < 2 ^ 32
  | _ => True

/-- The requests are served in turn, each with the lowest ids that fit, until one cannot be. All
these ranges can be given back. -/
def Harmless (l : Layout) (shared : Bool) : (PoolId → Set Nat) → List ResourceConstraint → Prop
  | _, [] => True
  | free, req :: rest =>
    match demand shared req with
    | .shared => Harmless l shared free rest
    | .refused => True
    | .range id c => ∀ s, IsLeast {s | Fit (free id) c s} s →
      Returnable l c s id ∧
        Harmless l shared (Function.update free id (free id \ {x | (IntervalTree.rangeAt c s).Has x})) rest

variable {checks : Bool} {l : Layout} {m0 m m' : ResourceManager} {id : PoolId} {c : Constraint} {s : Nat}
  {shared : Bool} {req : ResourceConstraint} {res : Resource} {resources : List Resource}

/-! ## The resource for a range -/

theorem Took.within (h : Orderly l m) (ht : Took l m id c s m') : id.lo ≤ s ∧ s + c.size ≤ id.hi l + 1 := by
  have hfit := ht.least.1
  have hpos := hfit.pos
  have hin : ∀ i < (c.size : Nat), id.lo ≤ s + i ∧ s + i ≤ id.hi l := by
    intro i hi
    refine (h id).within _ ?_
    rw [show idState (m.pool id).entries (s + i) = some .free from hfit.free i hi]
    rfl
  have h1 := (hin 0 hpos).1
  have h2 := (hin (c.size - 1) (by omega)).2
  omega

/-- The number of ids that a request asks for. -/
def count : ResourceConstraint → Nat
  | .pioAddress _ _ size => size.toNat
  | .mmioAddress _ _ size => size
  | .memAddress _ _ size => size
  | .legacyIrq _ => 1
  | .pciMsiIrq size => size.toNat
  | .pciMsixIrq size => size.toNat
  | .genericIrq size => size.toNat
  | .kvmMemSlot _ size => size.toNat

/-- The pool that a request is about. -/
def poolOf : ResourceConstraint → PoolId
  | .pioAddress .. => .pio
  | .mmioAddress .. => .mmio
  | .memAddress .. => .mem
  | .legacyIrq _ => .legacyIrq
  | .pciMsiIrq _ => .msiIrq
  | .pciMsixIrq _ => .msiIrq
  | .genericIrq _ => .msiIrq
  | .kvmMemSlot .. => .kvmMemSlot

theorem demand_range (hd : demand shared req = .range id c) : id = poolOf req ∧ (c.size : Nat) = count req := by
  cases req with
  | pioAddress range align size | mmioAddress range align size | memAddress range align size =>
    cases hd
    refine ⟨rfl, ?_⟩
    cases range <;> rfl
  | legacyIrq irq =>
    simp only [demand] at hd
    split at hd
    · cases hd
    · split at hd
      · split at hd
        · cases hd
        · cases hd
          exact ⟨rfl, rfl⟩
      · cases hd
        exact ⟨rfl, rfl⟩
  | kvmMemSlot slot size =>
    cases slot with
    | none | some v =>
      cases hd
      exact ⟨rfl, rfl⟩
  | _ =>
    cases hd
    exact ⟨rfl, rfl⟩

theorem sized_of_count (hpos : 0 < count req) : Resource.Sized (grant s req) := by
  cases req with
  | legacyIrq irq | kvmMemSlot slot size => trivial
  | _ => exact hpos

theorem Took.grant_sized (ht : Took l m id c s m') (hd : demand shared req = .range id c) :
    Resource.Sized (grant s req) := by
  have hpos := ht.least.1.pos
  rw [(demand_range hd).2] at hpos
  exact sized_of_count hpos

theorem msi_key {ty : MsiIrqType} {size : UInt32} (hpos : 0 < size.toNat) (hlo : 24 ≤ s)
    (hhi : s + size.toNat ≤ 1023 + 1) :
    Resource.key l (.msiIrq ty (UInt32.ofNat s) size) = some (.msiIrq, ⟨s, s + size.toNat - 1⟩) := by
  have hs : (UInt32.ofNat s).toNat = s := UInt32.toNat_ofNat_of_lt' (by simp only [UInt32.size]; omega)
  have hbase : msiIrqBase ≤ UInt32.ofNat s := by
    rw [UInt32.le_iff_toNat_le, hs]
    exact hlo
  simp only [Resource.key, hs]
  exact if_pos ⟨hbase, hhi⟩

theorem legacy_key (hlo : 6 ≤ s) (hhi : s + 1 ≤ 15 + 1) :
    Resource.key l (.legacyIrq (UInt32.ofNat s)) = some (.legacyIrq, ⟨s, s + 1 - 1⟩) := by
  have hs : (UInt32.ofNat s).toNat = s := UInt32.toNat_ofNat_of_lt' (by simp only [UInt32.size]; omega)
  have h5 : UInt32.ofNat s ≠ sharedIrq := by
    intro heq
    have heq := congrArg UInt32.toNat heq
    rw [hs] at heq
    have hshared : sharedIrq.toNat = 5 := rfl
    omega
  have hbase : legacyIrqBase ≤ UInt32.ofNat s := by
    rw [UInt32.le_iff_toNat_le, hs]
    exact Nat.le_of_succ_le hlo
  have hmax : UInt32.ofNat s ≤ legacyIrqMax := by
    rw [UInt32.le_iff_toNat_le, hs]
    exact Nat.le_of_succ_le_succ hhi
  simp only [Resource.key, hs]
  exact if_pos ⟨h5, hbase, hmax⟩

theorem grant_key (hd : demand shared req = .range id c) (hpos : 0 < (c.size : Nat)) (hlo : id.lo ≤ s)
    (hhi : s + c.size ≤ id.hi l + 1) (hr : Returnable l c s id) :
    Resource.key l (grant s req) = some (id, IntervalTree.rangeAt c s) := by
  obtain ⟨rfl, hsz⟩ := demand_range hd
  rw [IntervalTree.rangeAt, hsz]
  rw [hsz] at hpos hhi
  cases req with
  | pioAddress range align size =>
    simp only [Returnable, poolOf, hsz, pioMax] at hr
    have hs : (UInt16.ofNat s).toNat = s := UInt16.toNat_ofNat_of_lt' (by simp only [UInt16.size]; omega)
    simp only [grant, Resource.key, hs]
    exact if_pos (by simp only [count] at hr; omega)
  | mmioAddress range align size =>
    simp only [count, poolOf, PoolId.hi, u64Max] at hpos hhi
    have hs : (Fin.ofNat (2 ^ 64) s).val = s := Nat.mod_eq_of_lt (by omega)
    simp only [grant, Resource.key, hs]
    exact if_pos (by simp only [u64Max]; omega)
  | memAddress range align size =>
    simp only [Returnable, poolOf, hsz, count] at hr
    have hlt := hi_lt l .mem
    simp only [PoolId.hi, u64Max] at hlt
    have hs : (Fin.ofNat (2 ^ 64) s).val = s := Nat.mod_eq_of_lt (by omega)
    simp only [grant, Resource.key, hs]
    exact if_pos hr
  | legacyIrq irq => exact legacy_key hlo hhi
  | pciMsiIrq size | pciMsixIrq size | genericIrq size => exact msi_key hpos hlo hhi
  | kvmMemSlot slot size =>
    obtain ⟨hone, hlt⟩ := hr
    rw [hsz] at hone
    have hs : (UInt32.ofNat s).toNat = s := UInt32.toNat_ofNat_of_lt' hlt
    simp only [grant, Resource.key, hs, hone]
    rfl

/-- A range that cannot be given back is the range of no resource. -/
theorem ne_key (hpos : 0 < (c.size : Nat)) (hr : ¬ Returnable l c s id) (hs : Resource.Sized res) :
    Resource.key l res ≠ some (id, IntervalTree.rangeAt c s) := by
  intro hk
  cases res with
  | pioAddressRange base size =>
    simp only [Resource.key, Option.ite_none_right_eq_some, Option.some.injEq, Prod.mk.injEq,
      IntervalTree.rangeAt, Range.mk.injEq] at hk
    obtain ⟨hlt, rfl, rfl, hmax⟩ := hk
    have hs : 0 < size.toNat := hs
    simp only [Returnable, pioMax] at hr
    omega
  | mmioAddressRange base size | legacyIrq irq | msiIrq ty base size =>
    simp only [Resource.key, Option.ite_none_right_eq_some, Option.some.injEq, Prod.mk.injEq] at hk
    obtain ⟨_, rfl, _⟩ := hk
    exact hr trivial
  | memAddressRange base size =>
    simp only [Resource.key, Option.ite_none_right_eq_some, Option.some.injEq, Prod.mk.injEq,
      IntervalTree.rangeAt, Range.mk.injEq] at hk
    obtain ⟨hle, rfl, rfl, hmax⟩ := hk
    have hs : 0 < size.val := hs
    simp only [Returnable] at hr
    omega
  | macAddress addr => cases hk
  | kvmMemSlot slot =>
    simp only [Resource.key, Option.some.injEq, Prod.mk.injEq, IntervalTree.rangeAt, Range.mk.injEq] at hk
    obtain ⟨rfl, rfl, hmax⟩ := hk
    exact hr ⟨by omega, slot.toNat_lt⟩

/-! ## Giving everything back -/

/-- The ranges that resources stand for. -/
def ranges (l : Layout) (resources : List Resource) : List (PoolId × Range) :=
  resources.filterMap (Resource.key l)

/-- The pools are as they were in `m0`, but for the ranges of `resources`. -/
structure Owes (l : Layout) (m0 : ResourceManager) (resources : List Resource) (m : ResourceManager) :
    Prop where
  orderly : Orderly l m
  sized : ∀ res ∈ resources, Resource.Sized res
  freeable : ∀ res ∈ resources, res = .legacyIrq sharedIrq ∨ ∃ owed, Resource.key l res = some owed
  nodup : (ranges l resources).Nodup
  debt : ∀ id, Debt (m0.pool id) {k | (id, k) ∈ ranges l resources} (m.pool id)

theorem ranges_nil (l : Layout) (id : PoolId) : {k | (id, k) ∈ ranges l []} = ∅ := by
  ext k
  simp [ranges]

theorem Owes.nothing (h : Orderly l m) : Owes l m [] m := by
  refine ⟨h, nofun, nofun, List.nodup_nil, ?_⟩
  intro id
  rw [ranges_nil]
  exact Debt.nothing (h id).inv (h id).coalesced

theorem Owes.samePools (h : Owes l m0 [] m) (h0 : Orderly l m0) : SamePools m0 m := by
  intro id
  have hdebt := h.debt id
  rw [ranges_nil] at hdebt
  exact hdebt.settled (h0 id).inv (h0 id).coalesced

theorem Owes.addShared (h : Owes l m0 resources m) : Owes l m0 (resources ++ [.legacyIrq sharedIrq]) m := by
  have hranges : ranges l (resources ++ [.legacyIrq sharedIrq]) = ranges l resources := by
    rw [ranges, List.filterMap_append]
    exact List.append_nil _
  refine ⟨h.orderly, ?_, ?_, hranges ▸ h.nodup, hranges ▸ h.debt⟩
  · exact List.forall_mem_append.mpr ⟨h.sized, List.forall_mem_singleton.mpr trivial⟩
  · exact List.forall_mem_append.mpr ⟨h.freeable, List.forall_mem_singleton.mpr (.inl rfl)⟩

theorem Owes.took (h : Owes l m0 resources m) (ht : Took l m id c s m') (hs : Resource.Sized res)
    (hk : Resource.key l res = some (id, IntervalTree.rangeAt c s)) : Owes l m0 (resources ++ [res]) m' := by
  have hranges : ranges l (resources ++ [res]) = ranges l resources ++ [(id, IntervalTree.rangeAt c s)] := by
    simp [ranges, hk]
  obtain ⟨hnew, hdebt⟩ := ht.debt (h.debt id)
  refine ⟨ht.orderly, ?_, ?_, ?_, ?_⟩
  · exact List.forall_mem_append.mpr ⟨h.sized, List.forall_mem_singleton.mpr hs⟩
  · exact List.forall_mem_append.mpr ⟨h.freeable, List.forall_mem_singleton.mpr (.inr ⟨_, hk⟩)⟩
  · rw [hranges, ← List.concat_eq_append]
    exact List.Nodup.concat hnew h.nodup
  · intro id'
    by_cases hid : id' = id
    · subst hid
      have hset : {k | (id', k) ∈ ranges l (resources ++ [res])} =
          insert (IntervalTree.rangeAt c s) {k | (id', k) ∈ ranges l resources} := by
        ext k
        simp [hranges, or_comm]
      rw [hset]
      exact hdebt
    · have hset : {k | (id', k) ∈ ranges l (resources ++ [res])} = {k | (id', k) ∈ ranges l resources} := by
        ext k
        simp [hranges, hid]
      rw [hset, ht.other hid]
      exact h.debt id'

/-- A range that is owed can be freed. -/
theorem release_owed (checks : Bool) (h : Orderly l m) {t0 : IntervalTree Unit} {live : Set Range} {k : Range}
    (hd : Debt t0 live (m.pool id)) (hk : k ∈ live) :
    ∃ t, m.release checks id k.min k.max = .ok (.ok (), m.setPool t id) ∧ Debt t0 (live \ {k}) t := by
  obtain ⟨st, _, hmem⟩ := hd.busy k hk
  have hw := (h id).inv.ordered.1 _ hmem
  have hfull := (h id).noFull (hi_lt l id) _ hmem
  have hnew : Range.new k.min k.max = .ok k := by
    refine Range.new_eq_ok hw.min_le_max ?_
    rintro ⟨hmin, hmax⟩
    refine hfull ?_
    cases k
    simp only at hmin hmax
    subst hmin hmax
    rfl
  obtain ⟨old, t, ht, hdebt⟩ := hd.free checks hk
  refine ⟨t, ?_, hdebt⟩
  rw [release, hnew, ok_bind, ht, ok_bind]
  rfl

theorem Owes.freeOne (checks : Bool) (h : Owes l m0 (res :: resources) m) :
    ∃ m', m.freeOne checks l res = .ok (.ok (), m') ∧ Owes l m0 resources m' := by
  have hsized : ∀ res' ∈ resources, Resource.Sized res' := fun res' hres => h.sized res' (.tail _ hres)
  have hfreeable : ∀ res' ∈ resources, res' = .legacyIrq sharedIrq ∨ ∃ owed, Resource.key l res' = some owed :=
    fun res' hres => h.freeable res' (.tail _ hres)
  rcases h.freeable res (.head _) with rfl | ⟨⟨id, k⟩, hk⟩
  · exact ⟨m, rfl, h.orderly, hsized, hfreeable, h.nodup, h.debt⟩
  · have hranges : ranges l (res :: resources) = (id, k) :: ranges l resources := by
      simp [ranges, hk]
    have hnodup := h.nodup
    rw [hranges, List.nodup_cons] at hnodup
    have hkey : k ∈ {k | (id, k) ∈ ranges l (res :: resources)} := by
      simp [hranges]
    obtain ⟨t, hrel, hdebt⟩ := release_owed checks h.orderly (h.debt id) hkey
    have hone : m.freeOne checks l res = .ok (.ok (), m.setPool t id) := by
      rw [freeOne_key checks m (h.sized res (.head _)) hk]
      exact hrel
    refine ⟨_, hone, freeOne_orderly h.orderly hone, hsized, hfreeable, hnodup.2, ?_⟩
    intro id'
    by_cases hid : id' = id
    · subst hid
      have hset : {k' | (id', k') ∈ ranges l (res :: resources)} \ {k} =
          {k' | (id', k') ∈ ranges l resources} := by
        ext k'
        simp only [hranges, List.mem_cons, Set.mem_sdiff, Set.mem_ofPred_eq, Prod.mk.injEq, true_and,
          Set.mem_singleton_iff]
        constructor
        · rintro ⟨rfl | hmem, hne⟩
          · exact absurd rfl hne
          · exact hmem
        · intro hmem
          refine ⟨.inr hmem, ?_⟩
          rintro rfl
          exact hnodup.1 hmem
      rw [pool_setPool, ← hset]
      exact hdebt
    · have hset : {k' | (id', k') ∈ ranges l (res :: resources)} = {k' | (id', k') ∈ ranges l resources} := by
        ext k'
        simp [hranges, hid]
      rw [pool_setPool_ne _ _ hid, ← hset]
      exact h.debt id'

theorem Owes.freeDeviceResources (checks : Bool) (h : Owes l m0 resources m) (h0 : Orderly l m0) :
    ∃ m', m.freeDeviceResources checks l resources = .ok (.ok (), m') ∧ SamePools m0 m' := by
  induction resources generalizing m with
  | nil => exact ⟨m, rfl, h.samePools h0⟩
  | cons res rest ih =>
    obtain ⟨m1, hone, hrest⟩ := h.freeOne checks
    obtain ⟨m', hfree, hsame⟩ := ih hrest
    refine ⟨m', ?_, hsame⟩
    rw [ResourceManager.freeDeviceResources, hone, ok_bind]
    exact hfree

theorem Took.busy_of_busy (ht : Took l m id c s m') {id' : PoolId} {k : Range} (hk : Busy (m.pool id') k) :
    Busy (m'.pool id') k := by
  by_cases hid : id' = id
  · subst hid
    exact ht.keeps hk
  · rw [ht.other hid]
    exact hk

theorem Took.freeIds_eq (ht : Took l m id c s m') :
    (fun id' => freeIds (m'.pool id')) = Function.update (fun id' => freeIds (m.pool id')) id
      (freeIds (m.pool id) \ {x | (IntervalTree.rangeAt c s).Has x}) := by
  funext id'
  by_cases hid : id' = id
  · subst hid
    rw [Function.update_self, ht.free]
  · rw [Function.update_of_ne hid, ht.other hid]

variable {requests : List ResourceConstraint}

theorem Harmless.settles (h0 : Orderly l m0)
    (h : Owes l m0 resources m) (hh : Harmless l shared (fun id => freeIds (m.pool id)) requests) :
    Settles checks l m0 (m.allocateLoop checks l shared resources requests) := by
  induction requests generalizing m resources with
  | nil =>
    obtain ⟨m', hfree, hsame⟩ := h.freeDeviceResources checks h0
    exact .granted hfree hsame
  | cons req rest ih =>
    rw [allocateLoop]
    rcases allocateOne_spec checks h.orderly shared req with
      ⟨hd, hone⟩ | ⟨_, hone⟩ | ⟨id, c, s, m1, hd, hone, htook⟩
    · rw [hone]
      simp only [Harmless, hd] at hh
      exact ih h.addShared hh
    · obtain ⟨m', hfree, hsame⟩ := h.freeDeviceResources checks h0
      rw [hone, ok_bind]
      simp only [rollback, hfree, ok_bind]
      exact .undone hsame
    · rw [hone]
      simp only [Harmless, hd] at hh
      obtain ⟨hr, hrest⟩ := hh s htook.least
      rw [← htook.freeIds_eq] at hrest
      have hpos := htook.least.1.pos
      obtain ⟨hlo, hhi⟩ := htook.within h.orderly
      exact ih (h.took htook (htook.grant_sized hd) (grant_key hd hpos hlo hhi hr)) hrest

/-! ## A range that is left behind -/

/-- A range is in use that was not in `m0`, and no resource stands for it. -/
def Stuck (l : Layout) (m0 m : ResourceManager) : Prop :=
  ∃ id k, ¬ Busy (m0.pool id) k ∧ Busy (m.pool id) k ∧
    ∀ res, Resource.Sized res → Resource.key l res ≠ some (id, k)

theorem Stuck.not_samePools (h : Stuck l m0 m) : ¬ SamePools m0 m := by
  obtain ⟨id, k, hold, ⟨st, hst, hmem⟩, _⟩ := h
  intro hsame
  rw [hsame id] at hmem
  exact hold ⟨st, hst, hmem⟩

theorem Stuck.took (h : Stuck l m0 m) (ht : Took l m id c s m') : Stuck l m0 m' := by
  obtain ⟨id', k, hold, hbusy, hno⟩ := h
  exact ⟨id', k, hold, ht.busy_of_busy hbusy, hno⟩

section Freed

variable {result : Except ResourceError Unit}

theorem Stuck.freeOne (h : Stuck l m0 m) (ho : Orderly l m) (hs : Resource.Sized res)
    (hr : m.freeOne checks l res = .ok (result, m')) : Stuck l m0 m' := by
  obtain rfl | ⟨id, min, max, hrel, hlo, hhi, hkey⟩ := freeOne_release hr
  · exact h
  · obtain ⟨id', k, hold, ⟨st, hst, hmem⟩, hno⟩ := h
    have hlt := hi_lt l id
    obtain ⟨_, _, hfreed, hother⟩ := release_freed ho (by omega) hrel
    refine ⟨id', k, hold, ?_, hno⟩
    by_cases hid : id' = id
    · subst hid
      refine ⟨st, hst, (hfreed.busy _ hst).mpr ⟨hmem, ?_⟩⟩
      rintro rfl
      exact hno res hs (hkey hs)
    · rw [hother hid]
      exact ⟨st, hst, hmem⟩

theorem Stuck.freeDeviceResources (h : Stuck l m0 m) (ho : Orderly l m) (hs : ∀ res ∈ resources, Resource.Sized res)
    (hr : m.freeDeviceResources checks l resources = .ok (result, m')) : Stuck l m0 m' := by
  induction resources generalizing m with
  | nil =>
    cases hr
    exact h
  | cons res rest ih =>
    rw [ResourceManager.freeDeviceResources] at hr
    obtain ⟨⟨one, m1⟩, hone, hrest⟩ := bind_eq_ok.mp hr
    have h1 := h.freeOne ho (hs res (.head _)) hone
    cases one with
    | error e =>
      cases hrest
      exact h1
    | ok u => exact ih h1 (freeOne_orderly ho hone) (fun res' hres => hs res' (.tail _ hres)) hrest

end Freed

theorem Stuck.not_settles (h : Stuck l m0 m) (ho : Orderly l m) (hs : ∀ res ∈ resources, Resource.Sized res) :
    ¬ Settles checks l m0 (m.allocateLoop checks l shared resources requests) := by
  induction requests generalizing m resources with
  | nil =>
    intro hset
    cases hset with
    | granted hfree hsame => exact (h.freeDeviceResources ho hs hfree).not_samePools hsame
  | cons req rest ih =>
    rw [allocateLoop]
    rcases allocateOne_spec checks ho shared req with
      ⟨_, hone⟩ | ⟨_, hone⟩ | ⟨id, c, s, m1, hd, hone, htook⟩
    · rw [hone]
      exact ih h ho (List.forall_mem_append.mpr ⟨hs, List.forall_mem_singleton.mpr trivial⟩)
    · rw [hone, ok_bind]
      intro hset
      simp only [rollback] at hset
      cases hfree : m.freeDeviceResources checks l resources with
      | error e =>
        rw [hfree] at hset
        cases hset
      | ok out =>
        obtain ⟨result, m'⟩ := out
        have hstuck := h.freeDeviceResources ho hs hfree
        rw [hfree] at hset
        cases result with
        | error e | ok u =>
          cases hset with
          | undone hsame => exact hstuck.not_samePools hsame
    · rw [hone]
      refine ih (h.took htook) htook.orderly ?_
      exact List.forall_mem_append.mpr ⟨hs, List.forall_mem_singleton.mpr (htook.grant_sized hd)⟩

theorem Settles.harmless (ho : Orderly l m)
    (hs : ∀ res ∈ resources, Resource.Sized res) (hkeep : ∀ id k, Busy (m0.pool id) k → Busy (m.pool id) k)
    (h : Settles checks l m0 (m.allocateLoop checks l shared resources requests)) :
    Harmless l shared (fun id => freeIds (m.pool id)) requests := by
  induction requests generalizing m resources with
  | nil => trivial
  | cons req rest ih =>
    rw [allocateLoop] at h
    rcases allocateOne_spec checks ho shared req with
      ⟨hd, hone⟩ | ⟨hd | ⟨id, c, hd, hno⟩, hone⟩ | ⟨id, c, s, m1, hd, hone, htook⟩
    · rw [hone] at h
      simp only [Harmless, hd]
      have hshared : Resource.Sized (.legacyIrq sharedIrq) := trivial
      exact ih ho (List.forall_mem_append.mpr ⟨hs, List.forall_mem_singleton.mpr hshared⟩) hkeep h
    · simp only [Harmless, hd]
    · simp only [Harmless, hd]
      intro s hleast
      exact absurd hleast.1 (hno s)
    · rw [hone] at h
      have hpos := htook.least.1.pos
      have hsized : ∀ res ∈ resources ++ [grant s req], Resource.Sized res :=
        List.forall_mem_append.mpr ⟨hs, List.forall_mem_singleton.mpr (htook.grant_sized hd)⟩
      have hkeep1 : ∀ id' k, Busy (m0.pool id') k → Busy (m1.pool id') k := by
        intro id' k hk
        exact htook.busy_of_busy (hkeep id' k hk)
      simp only [Harmless, hd]
      intro s' hleast
      cases hleast.unique htook.least
      refine ⟨?_, ?_⟩
      · by_contra hr
        have hstuck : Stuck l m0 m1 :=
          ⟨id, _, fun hold => htook.fresh (hkeep _ _ hold), htook.busy, fun res hres => ne_key hpos hr hres⟩
        exact hstuck.not_settles htook.orderly hsized h
      · rw [← htook.freeIds_eq]
        exact ih htook.orderly hsized hkeep1 h

/-! ## Main theorem -/

theorem allocateDeviceResources_iff {ops : List Op} (hinit : Initial checks l m0)
    (hrun : Run (Guarded checks l) m0 ops m) (requests : List ResourceConstraint) (shared : Bool) :
    Settles checks l m (m.allocateDeviceResources checks l requests shared) ↔
      Harmless l shared (fun id => freeIds (m.pool id)) requests := by
  have ho := orderly_run hinit hrun
  constructor
  · intro h
    exact Settles.harmless ho (fun _ hmem => by cases hmem) (fun _ _ hk => hk) h
  · intro h
    exact h.settles ho (Owes.nothing ho)

def layout46 : Layout := ⟨46, by decide, by decide⟩

/-- A second device, which asks for ports, an IRQ and a slot. -/
theorem allocateDeviceResources_iff_second :
    ∃ m0 m, Initial true layout46 m0 ∧
      Run (Guarded true layout46) m0 [.allocateDeviceResources [.legacyIrq none] false] m ∧
      Harmless layout46 false (fun id => freeIds (m.pool id))
        [.pioAddress none 1 8, .legacyIrq (some 7), .kvmMemSlot none 1] := by
  obtain ⟨m0, hm0⟩ : ∃ m0, new true layout46 none = .ok m0 := ⟨_, rfl⟩
  have hrun : ∃ m, Run (Guarded true layout46) m0 [.allocateDeviceResources [.legacyIrq none] false] m ∧
      Settles true layout46 m (m.allocateDeviceResources true layout46
        [.pioAddress none 1 8, .legacyIrq (some 7), .kvmMemSlot none 1] false) := by
    cases hm0
    refine ⟨_, .cons ⟨rfl, nofun⟩ .nil, .granted rfl ?_⟩
    intro id
    cases id <;> rfl
  obtain ⟨m, hrun, hset⟩ := hrun
  exact ⟨m0, m, .new hm0, hrun, (allocateDeviceResources_iff (.new hm0) hrun _ _).mp hset⟩

/-! ## The ranges that are left behind -/

/-- The ports from 0xf000 on are allocated, but cannot be freed. -/
theorem top_ports_not_freed :
    ∃ m m', new true layout46 none = .ok m ∧
      m.allocateDeviceResources true layout46 [.pioAddress (some (0xF000, 0xFFFF)) 1 0x1000] false =
        .ok (.ok [.pioAddressRange 0xF000 0x1000], m') ∧
      m'.freeDeviceResources true layout46 [.pioAddressRange 0xF000 0x1000] =
        .ok (.error (.invalidResourceRange "PIO Address"), m') :=
  ⟨_, _, rfl, rfl, rfl⟩

end Kata.Resources.ResourceManager
