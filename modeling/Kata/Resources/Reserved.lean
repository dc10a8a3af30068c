import Kata.Resources.Pools

/-!
# Kata.Resources.Reserved

Which addresses the pools for MMIO and for memory hand out.

The two pools have no address in common, and that stays so (`Placed`). The 64 MiB below 4 GiB, where
the system devices are, are to be set aside. They are allocated from `MMIO_LOW_END -
MMIO_SPACE_RESERVED` on, but `MMIO_LOW_END` is the last address of the window and not the one after
it. So the range that is reserved starts one byte too low, and the byte at `0xffffffff` is left.
`mmio_avoids_iff` says which calls are given it.
-/

namespace Kata

open Lib
namespace Allocator

variable {T : Type} {t t' : IntervalTree T} {key : Range} {x : Nat}

/-- The ids of a pool, free or not. -/
def managedIds (t : IntervalTree T) : Set Nat := {x | (idState t.entries x).isSome = true}

theorem freeIds_subset (t : IntervalTree T) : freeIds t ⊆ managedIds t := by
  intro x hx
  have hfree : idState t.entries x = some .free := hx
  rw [managedIds, Set.mem_ofPred_eq, hfree]
  rfl

theorem Busy.not_free (hi : t.Inv) (h : Busy t key) (hx : key.Has x) : x ∉ freeIds t := by
  obtain ⟨st, hst, hmem⟩ := h
  intro hfree
  have hfree : idState t.entries x = some .free := hfree
  rw [idState_of_mem hi.ordered hmem hx] at hfree
  exact hst (Option.some.inj hfree)

theorem insert_managed (hi : t.Inv) (hkey : key.Wf) (h : IntervalTree.insert t key none = .ok t') :
    (∀ x ∈ managedIds t', key.Has x ∨ x ∈ managedIds t) ∧ ∀ k, Busy t k → Busy t' k := by
  have hdis := Tree.insert_disjoint hkey hi.ordered h
  obtain ⟨t1, ht1, _, hmem⟩ := IntervalTree.insert_inv none hi hkey hdis
  rw [ht1] at h
  cases h
  refine ⟨?_, ?_⟩
  · intro x hx
    obtain ⟨st, hst⟩ := Option.isSome_iff_exists.mp hx
    obtain ⟨k, hk, hin⟩ := mem_of_idState hst
    rcases (hmem _).mp hk with heq | hk
    · cases heq
      exact .inl hin
    · right
      rw [managedIds, Set.mem_ofPred_eq, idState_of_mem hi.ordered hk hin]
      rfl
  · rintro k ⟨st, hst, hk⟩
    exact ⟨st, hst, (hmem _).mpr (.inr hk)⟩

theorem insert_free (hi : t.Inv) (hkey : key.Wf) (h : IntervalTree.insert t key none = .ok t') :
    ∀ x, x ∈ freeIds t' ↔ key.Has x ∨ x ∈ freeIds t := by
  have hdis := Tree.insert_disjoint hkey hi.ordered h
  obtain ⟨t1, ht1, hi', hmem⟩ := IntervalTree.insert_inv none hi hkey hdis
  rw [ht1] at h
  cases h
  intro x
  constructor
  · intro hx
    obtain ⟨k, hk, hin⟩ := mem_of_idState hx
    rcases (hmem _).mp hk with heq | hk
    · cases heq
      exact .inl hin
    · exact .inr (idState_of_mem hi.ordered hk hin)
  · rintro (hin | hx)
    · exact idState_of_mem hi'.ordered ((hmem (key, .free)).mpr (.inl rfl)) hin
    · obtain ⟨k, hk, hin⟩ := mem_of_idState hx
      exact idState_of_mem hi'.ordered ((hmem _).mpr (.inr hk)) hin

theorem Tidy.managed {lo hi : Nat} (h : Tidy lo hi t) : ∀ x ∈ managedIds t, lo ≤ x ∧ x ≤ hi := h.within

/-- A range above all others. -/
theorem Tidy.apart {lo hi : Nat} (h : Tidy lo hi t) (hkey : key.Wf) (hgt : hi < key.min) :
    ∀ e ∈ t.entries, e.1.intersect key = false := by
  intro e he
  have hwf := h.inv.ordered.1 e he
  have hlast := h.within e.1.max (by rw [idState_of_mem h.inv.ordered he ⟨hwf.min_le_max, Nat.le_refl _⟩]; rfl)
  exact intersect_of_before hwf hkey (.inl (Nat.lt_of_le_of_lt hlast.2 hgt))

end Allocator

namespace Resources

open Allocator

namespace ResourceManager

variable {checks : Bool} {l : Layout} {m m' : ResourceManager} {c : Constraint}

/-- Where the system devices are. -/
def System (x : Nat) : Prop := 0x100000000 - 0x4000000 ≤ x ∧ x ≤ 0xffffffff

/-- What `init_mmio_pool_helper` sets aside. -/
def reservedRange : Range := ⟨mmioLowEnd - mmioSpaceReserved, mmioLowEnd - 1⟩

def MmioArea (l : Layout) (x : Nat) : Prop :=
  mmioLowStart ≤ x ∧ x ≤ mmioLowEnd ∨ l.guestMemEnd < x ∧ x ≤ l.guestPhysEnd

def MemArea (l : Layout) (x : Nat) : Prop := x ≤ l.guestMemEnd ∧ ¬ (mmioLowStart ≤ x ∧ x ≤ mmioLowEnd)

variable {x : Nat}

theorem MmioArea.not_mem (h : MmioArea l x) : ¬ MemArea l x := by
  rintro ⟨hle, hwindow⟩
  rcases h with hlow | hhigh
  · exact hwindow hlow
  · omega

structure Placed (l : Layout) (m : ResourceManager) : Prop where
  mmio : ∀ x ∈ managedIds m.mmioPool, MmioArea l x
  mem : ∀ x ∈ managedIds m.memPool, MemArea l x
  reserved : l.physBits ≠ 64 → Busy m.mmioPool reservedRange

/-! ## The new manager -/

theorem guestPhysEnd_ge (h : l.physBits ≠ 64) : 2 ^ 36 - 1 ≤ l.guestPhysEnd := by
  have hge := l.physBits_ge
  have hle := l.physBits_le
  unfold Layout.guestPhysEnd
  rw [Nat.mod_eq_of_lt (by omega)]
  exact Nat.sub_le_sub_right (Nat.pow_le_pow_right (by decide) hge) 1

variable {t : IntervalTree Unit}

theorem placed_initMemPoolHelper (h : initMemPoolHelper l .new = .ok t) : ∀ x ∈ managedIds t, MemArea l x := by
  have hend := guestMemEnd_eq l
  have hlt := guestPhysEnd_lt l
  rcases guestPhysEnd_cases l with h0 | h1
  · intro x hx
    have hin := (tidy_initMemPoolHelper h).managed x hx
    refine ⟨hin.2, ?_⟩
    simp only [mmioLowStart]
    omega
  · obtain ⟨hle, low, hlow, hins⟩ := initMemPoolHelper_split h1 h
    have htidy := tidy_insert_new ⟨by decide, by decide⟩ hlow
    intro x hx
    rcases (insert_managed htidy.inv ⟨hle, by simp only [u64Max]; omega⟩ hins).1 x hx with hnew | hold
    · obtain ⟨hmin, hmax⟩ := hnew
      simp only [MemArea, mmioLowStart, mmioLowEnd] at hmin hmax ⊢
      omega
    · have hin := htidy.managed x hold
      simp only [MemArea, mmioLowStart, mmioLowEnd, guestMemStart] at hin ⊢
      omega

/-- The constraint of `reserve_mmio`. -/
def reserveConstraint : Constraint :=
  { Constraint.new mmioSpaceReserved with
    min := Fin.ofNat _ (mmioLowEnd - mmioSpaceReserved), max := 0xffffffff }

theorem reserveMmio_eq (checks : Bool) (t : IntervalTree Unit) :
    reserveMmio checks t = (do
      let (key, mmio) ← (IntervalTree.allocate checks t reserveConstraint).mapError .allocator
      match key with
      | some k => do return (← (mmio.update k ()).mapError .allocator).2
      | none => .error .reserveMmio) := rfl

theorem reserveConstraint_size : (reserveConstraint.size : Nat) = 0x4000000 := by decide

theorem reserveConstraint_min : (reserveConstraint.min : Nat) = 0xfbffffff := by decide

theorem reserveConstraint_fit (hfree : ∀ x, mmioLowStart ≤ x → x ≤ mmioLowEnd → x ∈ freeIds t) :
    Fit (freeIds t) reserveConstraint 0xfbffffff := by
  have hsize := reserveConstraint_size
  have hmin := reserveConstraint_min
  have hmax : (reserveConstraint.max : Nat) = 0xffffffff := by decide
  refine ⟨by omega, by omega, by omega, aligned_one _, ?_⟩
  intro i hi
  refine hfree _ ?_ ?_
  · simp only [mmioLowStart]
    omega
  · simp only [mmioLowEnd]
    omega

/-- The reservation takes the lowest addresses that its constraint allows. -/
theorem reserveMmio_busy {t t' : IntervalTree Unit} (ht : Tidy mmioLowStart mmioLowEnd t)
    (hfree : ∀ x, mmioLowStart ≤ x → x ≤ mmioLowEnd → x ∈ freeIds t) (h : reserveMmio checks t = .ok t') :
    Busy t' reservedRange := by
  rw [reserveMmio_eq] at h
  obtain ⟨⟨key, t1⟩, halloc, h⟩ := bind_eq_ok.mp h
  have halloc := of_mapError_ok halloc
  rcases ht.allocate checks (by decide) reserveConstraint with ⟨hnone, _⟩ | ⟨s, t2, hsome, htaken⟩
  · rw [hnone] at halloc
    cases halloc
    cases h
  · rw [hsome] at halloc
    cases halloc
    obtain ⟨⟨old, t3⟩, hupd, h⟩ := bind_eq_ok.mp h
    cases h
    have hs : s = 0xfbffffff :=
      Nat.le_antisymm (htaken.least.2 (reserveConstraint_fit hfree)) (reserveConstraint_min ▸ htaken.least.1.min_le)
    have hrange : IntervalTree.rangeAt reserveConstraint s = reservedRange := by
      rw [IntervalTree.rangeAt, reserveConstraint_size, hs]
      decide
    have hbusy : Busy t1 reservedRange :=
      ⟨.allocated, by simp, (htaken.effect.busy _ (by simp)).mpr (.inr (by rw [hrange]))⟩
    obtain ⟨_, _, _, hkeeps, _⟩ := updateEffect htaken.tidy.inv (of_mapError_ok hupd)
    exact hkeeps _ hbusy

theorem placed_initMmioPoolHelper (h : initMmioPoolHelper checks l .new = .ok t) :
    (∀ x ∈ managedIds t, MmioArea l x) ∧ (l.physBits ≠ 64 → Busy t reservedRange) := by
  have hend := guestMemEnd_eq l
  have hlt := guestPhysEnd_lt l
  unfold initMmioPoolHelper at h
  obtain ⟨window, hwindow, hrest⟩ := bind_eq_ok.mp h
  obtain ⟨t1, hlow, hrest1⟩ := bind_eq_ok.mp hrest
  obtain ⟨rfl, _, _⟩ := Range.of_new (of_mapError_ok hwindow)
  have hlow := of_mapError_ok hlow
  have htidy : Tidy mmioLowStart mmioLowEnd t1 := tidy_insert_new ⟨by decide, by decide⟩ hlow
  rcases guestPhysEnd_cases l with h0 | h1
  · have hnone : ¬ l.guestMemEnd < l.guestPhysEnd := by omega
    simp only [unsplit_zero h0, Bool.not_true, Bool.false_eq_true, if_false, hnone, ok_bind] at hrest1
    cases hrest1
    refine ⟨fun x hx => .inl (htidy.managed x hx), ?_⟩
    intro hbits
    have := guestPhysEnd_ge hbits
    omega
  · have hsome : l.guestMemEnd < l.guestPhysEnd := by omega
    simp only [unsplit_eq h1, Bool.not_false, if_true, hsome] at hrest1
    obtain ⟨t2, hreserve, hrest2⟩ := bind_eq_ok.mp hrest1
    obtain ⟨high, hhigh, hins⟩ := bind_eq_ok.mp hrest2
    obtain ⟨rfl, hle, _⟩ := Range.of_new (of_mapError_ok hhigh)
    have hfree : ∀ x, mmioLowStart ≤ x → x ≤ mmioLowEnd → x ∈ freeIds t1 := by
      intro x hmin hmax
      cases hlow
      exact if_pos ⟨hmin, hmax⟩
    have hbusy := reserveMmio_busy htidy hfree hreserve
    have htidy2 := tidy_reserveMmio htidy (by decide) hreserve
    have hhighWf : (⟨l.guestMemEnd + 1, l.guestPhysEnd⟩ : Range).Wf := ⟨hle, by simp only [u64Max]; omega⟩
    obtain ⟨hmanaged, hkeeps⟩ := insert_managed htidy2.inv hhighWf (of_mapError_ok hins)
    refine ⟨?_, fun _ => hkeeps _ hbusy⟩
    intro x hx
    rcases hmanaged x hx with hnew | hold
    · exact .inr hnew
    · exact .inl (htidy2.managed x hold)

theorem placed_new {maxKvmMemSlot : Option U64} (h : new checks l maxKvmMemSlot = .ok m) : Placed l m := by
  obtain ⟨_, hmmioPool, hmemPool⟩ := new_ok h
  obtain ⟨hmmio, hreserved⟩ := placed_initMmioPoolHelper hmmioPool
  exact ⟨hmmio, placed_initMemPoolHelper hmemPool, hreserved⟩

theorem free_single {key : Range} (hkey : key.Wf)
    (h : IntervalTree.insert .new key none = .ok t) (x : Nat) : x ∈ freeIds t ↔ key.Has x := by
  rw [insert_free IntervalTree.inv_new hkey h]
  refine or_iff_left ?_
  intro hx
  cases hx

/-- Two parts of memory, or all of it in one. -/
theorem free_initMemPoolHelper (l : Layout) :
    ∃ t, initMemPoolHelper l .new = .ok t ∧ ∀ x, x ∈ freeIds t ↔ MemArea l x := by
  have hend := guestMemEnd_eq l
  have hlt := guestPhysEnd_lt l
  rcases guestPhysEnd_cases l with h0 | h1
  · have hkey : Range.new guestMemStart l.guestMemEnd = .ok ⟨0, l.guestMemEnd⟩ :=
      Range.new_eq_ok (Nat.zero_le _) (by simp only [u64Max]; omega)
    obtain ⟨t, ht⟩ : ∃ t : IntervalTree Unit, IntervalTree.insert .new ⟨0, l.guestMemEnd⟩ none = .ok t := ⟨_, rfl⟩
    refine ⟨t, ?_, ?_⟩
    · rw [initMemPoolHelper, unsplit_zero h0, if_pos rfl, hkey]
      exact ht
    · intro x
      rw [free_single ⟨Nat.zero_le _, by simp only [u64Max]; omega⟩ ht]
      simp only [Range.Has, MemArea, mmioLowStart]
      omega
  · have hkey : Range.new guestMemStart (mmioLowStart - 1) = .ok ⟨0, mmioLowStart - 1⟩ := rfl
    obtain ⟨low, hlow⟩ : ∃ t : IntervalTree Unit, IntervalTree.insert .new ⟨0, mmioLowStart - 1⟩
        none = .ok t := ⟨_, rfl⟩
    have htidy : Tidy 0 (mmioLowStart - 1) low := tidy_insert_new ⟨by decide, by decide⟩ hlow
    have hhigh : mmioLowEnd < l.guestMemEnd := by
      simp only [mmioLowEnd]
      omega
    have hhighKey : Range.new (mmioLowEnd + 1) l.guestMemEnd = .ok ⟨mmioLowEnd + 1, l.guestMemEnd⟩ :=
      Range.new_eq_ok hhigh (by simp [mmioLowEnd])
    have hwf : (⟨mmioLowEnd + 1, l.guestMemEnd⟩ : Range).Wf := ⟨hhigh, by simp only [u64Max]; omega⟩
    obtain ⟨t, ht, _, _⟩ := IntervalTree.insert_inv none htidy.inv hwf 
      (htidy.apart hwf (show mmioLowStart - 1 < mmioLowEnd + 1 by decide))
    refine ⟨t, ?_, ?_⟩
    · rw [initMemPoolHelper, unsplit_eq h1, if_neg (by decide), if_pos (by decide), hkey, ok_bind, hlow,
        ok_bind]
      simp only [if_pos hhigh, hhighKey]
      exact ht
    · intro x
      rw [insert_free htidy.inv hwf ht, free_single ⟨by decide, by decide⟩ hlow]
      simp only [Range.Has, MemArea, mmioLowStart, mmioLowEnd] at hhigh ⊢
      omega

theorem reserveMmio_returns (checks : Bool) (ht : Tidy mmioLowStart mmioLowEnd t)
    (hfree : ∀ x, mmioLowStart ≤ x → x ≤ mmioLowEnd → x ∈ freeIds t) : ∃ t', reserveMmio checks t = .ok t' := by
  rw [reserveMmio_eq]
  rcases ht.allocate checks (by decide) reserveConstraint with ⟨_, hno⟩ | ⟨s, t1, hsome, htaken⟩
  · exact absurd (reserveConstraint_fit hfree) (hno _)
  · have hbusy : Busy t1 (IntervalTree.rangeAt reserveConstraint s) :=
      ⟨.allocated, by simp, (htaken.effect.busy _ (by simp)).mpr (.inr rfl)⟩
    obtain ⟨old, t2, hupd⟩ := update_ok htaken.tidy.inv hbusy
    exact ⟨t2, by simp [hsome, Except.mapError, hupd]⟩

theorem initMmioPoolHelper_returns (checks : Bool) (l : Layout) : ∃ t, initMmioPoolHelper checks l .new = .ok t := by
  have hend := guestMemEnd_eq l
  have hlt := guestPhysEnd_lt l
  have hkey : Range.new mmioLowStart mmioLowEnd = .ok ⟨mmioLowStart, mmioLowEnd⟩ := rfl
  obtain ⟨t1, hlow⟩ : ∃ t : IntervalTree Unit, IntervalTree.insert .new ⟨mmioLowStart, mmioLowEnd⟩ none = .ok t :=
    ⟨_, rfl⟩
  have hwindow : (⟨mmioLowStart, mmioLowEnd⟩ : Range).Wf := ⟨by decide, by decide⟩
  have htidy : Tidy mmioLowStart mmioLowEnd t1 := tidy_insert_new hwindow hlow
  unfold initMmioPoolHelper
  rw [hkey]
  simp only [Except.mapError, ok_bind, hlow]
  rcases guestPhysEnd_cases l with h0 | h1
  · have hnone : ¬ l.guestMemEnd < l.guestPhysEnd := by omega
    simp [unsplit_zero h0, hnone]
  · have hsome : l.guestMemEnd < l.guestPhysEnd := by omega
    obtain ⟨t2, ht2⟩ := reserveMmio_returns checks htidy fun x hmin hmax =>
      (free_single hwindow hlow x).mpr ⟨hmin, hmax⟩
    have htidy2 := tidy_reserveMmio htidy (by decide) ht2
    have hhigh : Range.new (l.guestMemEnd + 1) l.guestPhysEnd = .ok ⟨l.guestMemEnd + 1, l.guestPhysEnd⟩ :=
      Range.new_eq_ok hsome (by omega)
    have hwf : (⟨l.guestMemEnd + 1, l.guestPhysEnd⟩ : Range).Wf := ⟨hsome, by simp only [u64Max]; omega⟩
    have hgt : mmioLowEnd < l.guestMemEnd + 1 := by
      simp only [mmioLowEnd]
      omega
    obtain ⟨t3, ht3, _, _⟩ := IntervalTree.insert_inv none htidy2.inv hwf (htidy2.apart hwf hgt)
    simp [unsplit_eq h1, hsome, ht2, hhigh, ht3]

theorem new_returns (checks : Bool) (l : Layout) {slots : U64} (hslots : slots.val < u64Max) :
    ∃ m, new checks l (some slots) = .ok m ∧ (∀ x, x ∈ freeIds m.memPool ↔ MemArea l x) ∧
      ∀ x, x ∈ freeIds m.kvmMemSlotPool ↔ x ≤ slots.val := by
  obtain ⟨mmio, hmmio⟩ := initMmioPoolHelper_returns checks l
  obtain ⟨mem, hmem, hfree⟩ := free_initMemPoolHelper l
  have hkey : Range.new 0 slots.val = .ok ⟨0, slots⟩ := Range.new_eq_ok (Nat.zero_le _) (by omega)
  have hslotsWf : (⟨0, slots⟩ : Range).Wf := ⟨Nat.zero_le _, Nat.le_of_lt hslots⟩
  have hnew : ∃ m, new checks l (some slots) = .ok m ∧ m.memPool = mem ∧
      IntervalTree.insert .new ⟨0, slots⟩ none = .ok m.kvmMemSlotPool := by
    unfold new
    simp only [hkey, hmmio, hmem]
    exact ⟨_, rfl, rfl, rfl⟩
  obtain ⟨m, hm, rfl, hkvm⟩ := hnew
  refine ⟨m, hm, hfree, ?_⟩
  intro x
  rw [free_single hslotsWf hkvm]
  simp [Range.Has]

/-! ## Calls -/

/-- The addresses of a range that was handed out, given by its base and its size. -/
def Covers (a : U64 × U64) (x : Nat) : Prop := (a.1 : Nat) ≤ x ∧ x < a.1 + a.2

/-- A manager with all that it has handed out from the two pools so far. -/
structure Owned where
  manager : ResourceManager
  mmio : List (U64 × U64)
  mem : List (U64 × U64)

namespace Owned

inductive Call where
  | allocateMmio (c : Constraint)
  | freeMmio (base size : U64)
  | allocateMem (c : Constraint)
  | freeMem (base size : U64)

/-- What is freed has been handed out before. -/
inductive Step (checks : Bool) (l : Layout) (s : Owned) : Call → Owned → Prop where
  | allocateMmio {c : Constraint} {base : Option U64} {m : ResourceManager} :
      s.manager.allocateMmioAddress checks c = .ok (base, m) →
      Step checks l s (.allocateMmio c) { s with manager := m, mmio := base.toList.map (·, c.size) ++ s.mmio }
  | freeMmio {base size : U64} {result : Except ResourceError Unit} {m : ResourceManager} :
      (base, size) ∈ s.mmio → s.manager.freeMmioAddress checks base size = .ok (result, m) →
      Step checks l s (.freeMmio base size) { s with manager := m }
  | allocateMem {c : Constraint} {base : Option U64} {m : ResourceManager} :
      s.manager.allocateMemAddress checks c = .ok (base, m) →
      Step checks l s (.allocateMem c) { s with manager := m, mem := base.toList.map (·, c.size) ++ s.mem }
  | freeMem {base size : U64} {result : Except ResourceError Unit} {m : ResourceManager} :
      (base, size) ∈ s.mem → s.manager.freeMemAddress checks l base size = .ok (result, m) →
      Step checks l s (.freeMem base size) { s with manager := m }

end Owned

variable {id : PoolId}

/-- The two pools give the base of what they take. -/
theorem take_base {base : Option U64} (h : Orderly l m)
    (ht : (do let (key, m) ← m.take checks id c false; return (key.map fun k => Fin.ofNat _ k.min, m)) =
      Except.ok (base, m')) :
    (base = none ∧ m' = m ∧ ∀ s, ¬ Fit (freeIds (m.pool id)) c s) ∨
      ∃ s : U64, base = some s ∧ Took l m id c s m' := by
  rcases take_spec checks h id c false with ⟨hnone, hno⟩ | ⟨s, m1, hsome, htook⟩
  · rw [hnone] at ht
    cases ht
    exact .inl ⟨rfl, rfl, hno⟩
  · rw [hsome] at ht
    cases ht
    have hfit := htook.least.1
    have hlt : s < 2 ^ 64 := by
      have hpos := hfit.pos
      have hle := hfit.le_max
      have hmax := c.max.isLt
      omega
    refine .inr ⟨⟨s, hlt⟩, ?_, htook⟩
    have hval : Fin.ofNat (2 ^ 64) s = ⟨s, hlt⟩ := Fin.ext (Nat.mod_eq_of_lt hlt)
    exact congrArg some hval

theorem allocateMmioAddress_returns (checks : Bool) (h : Orderly l m) (c : Constraint) :
    ∃ base m', m.allocateMmioAddress checks c = .ok (base, m') := by
  rcases take_spec checks h .mmio c false with ⟨hnone, _⟩ | ⟨s, m1, hsome, _⟩
  · exact ⟨none, m, by rw [allocateMmioAddress, hnone]; rfl⟩
  · exact ⟨_, m1, by rw [allocateMmioAddress, hsome]; rfl⟩

theorem Took.managed {s : Nat} (h : Took l m id c s m') (ho : Orderly l m) :
    managedIds (m'.pool id) = managedIds (m.pool id) := by
  obtain ⟨_, hd⟩ := h.debt (.nothing (ho id).inv (ho id).coalesced)
  ext x
  rw [managedIds, managedIds, Set.mem_ofPred_eq, Set.mem_ofPred_eq, hd.same.managed x]

theorem Took.covers_free {b : U64} (h : Took l m id c b m') (hx : Covers (b, c.size) x) :
    x ∈ freeIds (m.pool id) := by
  obtain ⟨hle, hlt⟩ := hx
  have hfree := h.least.1.free (x - b) (by simp only at hlt hle; omega)
  rwa [Nat.add_sub_cancel' hle] at hfree

theorem freeOne_freed {res : Resource} {result : Except ResourceError Unit} (h : Orderly l m)
    (hs : Resource.Sized res) (hr : m.freeOne checks l res = .ok (result, m')) :
    m' = m ∨ ∃ id k, Resource.key l res = some (id, k) ∧ Freed (m.pool id) k (m'.pool id) ∧
      ∀ {id'}, id' ≠ id → m'.pool id' = m.pool id' := by
  obtain rfl | ⟨id, min, max, hrel, hlo, hhi, hkey⟩ := freeOne_release hr
  · exact .inl rfl
  · have hlt := hi_lt l id
    obtain ⟨_, _, hfreed, hother⟩ := release_freed h (by omega) hrel
    exact .inr ⟨id, _, hkey hs, hfreed, hother⟩

theorem covers_of_has {base size : U64} (hpos : 0 < (size : Nat))
    (hx : (⟨base, (base : Nat) + size - 1⟩ : Range).Has x) : Covers (base, size) x := by
  obtain ⟨hmin, hmax⟩ := hx
  refine ⟨hmin, ?_⟩
  simp only at hmax ⊢
  omega

namespace Owned

structure Kept (l : Layout) (s : Owned) : Prop where
  orderly : Orderly l s.manager
  placed : Placed l s.manager
  mmio : ∀ a ∈ s.mmio, 0 < (a.2 : Nat) ∧
    ∀ x, Covers a x → MmioArea l x ∧ (l.physBits ≠ 64 → ¬ reservedRange.Has x)
  mem : ∀ a ∈ s.mem, 0 < (a.2 : Nat) ∧ ∀ x, Covers a x → MemArea l x

variable {s s' : Owned}

theorem Kept.allocateMmio {base : Option U64} (h : Kept l s)
    (ha : s.manager.allocateMmioAddress checks c = .ok (base, m)) :
    Kept l { s with manager := m, mmio := base.toList.map (·, c.size) ++ s.mmio } := by
  rcases take_base h.orderly ha with ⟨rfl, rfl, _⟩ | ⟨b, rfl, htook⟩
  · exact h
  · have hmanaged : managedIds m.mmioPool = managedIds s.manager.mmioPool := htook.managed h.orderly
    have hmem : m.memPool = s.manager.memPool := (htook.other nofun : m.pool .mem = s.manager.pool .mem)
    refine ⟨htook.orderly, ⟨hmanaged ▸ h.placed.mmio, hmem ▸ h.placed.mem, ?_⟩, ?_, h.mem⟩
    · exact fun hbits => htook.keeps (h.placed.reserved hbits)
    · intro a hin
      rcases List.mem_append.mp hin with hnew | hold
      · obtain rfl : a = (b, c.size) := by simpa using hnew
        refine ⟨htook.least.1.pos, ?_⟩
        intro x hx
        have hfree := htook.covers_free hx
        refine ⟨h.placed.mmio x (freeIds_subset _ hfree), ?_⟩
        intro hbits hres
        exact (h.placed.reserved hbits).not_free (h.orderly .mmio).inv hres hfree
      · exact h.mmio a hold

theorem Kept.allocateMem {base : Option U64} (h : Kept l s)
    (ha : s.manager.allocateMemAddress checks c = .ok (base, m)) :
    Kept l { s with manager := m, mem := base.toList.map (·, c.size) ++ s.mem } := by
  rcases take_base h.orderly ha with ⟨rfl, rfl, _⟩ | ⟨b, rfl, htook⟩
  · exact h
  · have hmanaged : managedIds m.memPool = managedIds s.manager.memPool := htook.managed h.orderly
    have hmmio : m.mmioPool = s.manager.mmioPool := (htook.other nofun : m.pool .mmio = s.manager.pool .mmio)
    refine ⟨htook.orderly, ⟨hmmio ▸ h.placed.mmio, hmanaged ▸ h.placed.mem, hmmio ▸ h.placed.reserved⟩, h.mmio, ?_⟩
    intro a hin
    rcases List.mem_append.mp hin with hnew | hold
    · obtain rfl : a = (b, c.size) := by simpa using hnew
      refine ⟨htook.least.1.pos, ?_⟩
      intro x hx
      exact h.placed.mem x (freeIds_subset _ (htook.covers_free hx))
    · exact h.mem a hold

theorem Kept.freeMmio {base size : U64} {result : Except ResourceError Unit} (h : Kept l s)
    (hin : (base, size) ∈ s.mmio) (hr : s.manager.freeMmioAddress checks base size = .ok (result, m)) :
    Kept l { s with manager := m } := by
  have hr : s.manager.freeOne checks l (.mmioAddressRange base size) = .ok (result, m) := hr
  obtain ⟨hpos, hcovers⟩ := h.mmio _ hin
  have hsized : Resource.Sized (.mmioAddressRange base size) := hpos
  have horderly := freeOne_orderly h.orderly hr
  rcases freeOne_freed h.orderly hsized hr with rfl | ⟨id, k, hkey, hfreed, hother⟩
  · exact h
  · obtain ⟨hle, ⟨⟩⟩ := Option.ite_none_right_eq_some.mp hkey
    have hmem : m.memPool = s.manager.memPool := (hother (by decide) : m.pool .mem = s.manager.pool .mem)
    refine ⟨horderly, ⟨?_, hmem ▸ h.placed.mem, ?_⟩, h.mmio, h.mem⟩
    · intro x hx
      rcases hfreed.managed x hx with hk | hold
      · exact (hcovers x (covers_of_has hpos hk)).1
      · exact h.placed.mmio x hold
    · -- what is freed is not the reserved range, which was never free
      intro hbits
      obtain ⟨st, hst, hres⟩ := h.placed.reserved hbits
      refine ⟨st, hst, (hfreed.busy _ hst).mpr ⟨hres, ?_⟩⟩
      intro heq
      have heq : reservedRange = ⟨base, (base : Nat) + size - 1⟩ := heq
      have hhas : reservedRange.Has base := by
        rw [heq]
        exact ⟨Nat.le_refl _, by simp only at hpos ⊢; omega⟩
      exact (hcovers base ⟨Nat.le_refl _, by simp only at hpos ⊢; omega⟩).2 hbits hhas

theorem Kept.freeMem {base size : U64} {result : Except ResourceError Unit} (h : Kept l s)
    (hin : (base, size) ∈ s.mem) (hr : s.manager.freeMemAddress checks l base size = .ok (result, m)) :
    Kept l { s with manager := m } := by
  have hr : s.manager.freeOne checks l (.memAddressRange base size) = .ok (result, m) := hr
  obtain ⟨hpos, hcovers⟩ := h.mem _ hin
  have hsized : Resource.Sized (.memAddressRange base size) := hpos
  have horderly := freeOne_orderly h.orderly hr
  rcases freeOne_freed h.orderly hsized hr with rfl | ⟨id, k, hkey, hfreed, hother⟩
  · exact h
  · obtain ⟨hle, ⟨⟩⟩ := Option.ite_none_right_eq_some.mp hkey
    have hmmio : m.mmioPool = s.manager.mmioPool := (hother (by decide) : m.pool .mmio = s.manager.pool .mmio)
    refine ⟨horderly, ⟨hmmio ▸ h.placed.mmio, ?_, hmmio ▸ h.placed.reserved⟩, h.mmio, h.mem⟩
    intro x hx
    rcases hfreed.managed x hx with hk | hold
    · exact hcovers x (covers_of_has hpos hk)
    · exact h.placed.mem x hold

theorem Kept.step {call : Call} (h : Kept l s) (hs : Step checks l s call s') : Kept l s' := by
  cases hs with
  | allocateMmio ha => exact h.allocateMmio ha
  | freeMmio hin hr => exact h.freeMmio hin hr
  | allocateMem ha => exact h.allocateMem ha
  | freeMem hin hr => exact h.freeMem hin hr

theorem kept_run {maxKvmMemSlot : Option U64} {m0 : ResourceManager} {calls : List Call}
    (hnew : new checks l maxKvmMemSlot = .ok m0) (hrun : Run (Step checks l) ⟨m0, [], []⟩ calls s) : Kept l s :=
  hrun.invariant (I := Kept l) (fun _ _ _ h hs => h.step hs) ⟨(new_ok hnew).1, placed_new hnew, nofun, nofun⟩

/-! ## The window below 4 GiB -/

/-- The call is not one for a single byte that only the byte at `0xffffffff` can serve. With 64
physical address bits nothing is reserved, and whatever can be served at all can be served below the
window. -/
def Spared (l : Layout) (free : Set Nat) (c : Constraint) : Prop :=
  if l.physBits = 64 then ∀ b, Fit free c b → ∃ b', Fit free c b' ∧ b' + c.size ≤ 0x100000000 - 0x4000000
  else (c.size : Nat) = 1 → Fit free c 0xffffffff → ∃ b' < 0xffffffff, Fit free c b'

/-- Of the window only the last byte is ever free. -/
theorem Kept.free_system (h : Kept l s) (hbits : l.physBits ≠ 64) {x : Nat}
    (hx : x ∈ freeIds (s.manager.pool .mmio)) (hsys : System x) : x = 0xffffffff := by
  have hres : ¬ reservedRange.Has x := by
    intro hr
    exact (h.placed.reserved hbits).not_free (h.orderly .mmio).inv hr hx
  obtain ⟨hmin, hmax⟩ := hsys
  have hlo : reservedRange.min = 0xfbffffff := by decide
  have hhi : reservedRange.max = 0xfffffffe := by decide
  simp only [Range.Has, hlo, hhi] at hres
  omega

/-- A range from the window is the last byte alone. -/
theorem Kept.took_system (h : Kept l s) (hbits : l.physBits ≠ 64) {b : U64} (htook : Took l s.manager .mmio c b m')
    {x : Nat} (hx : Covers (b, c.size) x) (hsys : System x) : (b : Nat) = 0xffffffff ∧ (c.size : Nat) = 1 := by
  have hpos := htook.least.1.pos
  have hlast := h.free_system hbits (htook.covers_free hx) hsys
  obtain ⟨hle, hlt⟩ := hx
  simp only at hle hlt
  have hbase : (b : Nat) = 0xffffffff := by
    -- the byte before it is reserved
    by_contra hne
    have hprev : Covers (b, c.size) 0xfffffffe := ⟨by simp only; omega, by simp only; omega⟩
    have := h.free_system hbits (htook.covers_free hprev) ⟨by decide, by decide⟩
    omega
  refine ⟨hbase, ?_⟩
  -- the byte after it belongs to the memory
  by_contra hne
  have hnext : Covers (b, c.size) 0x100000000 := ⟨by simp only; omega, by simp only; omega⟩
  have hphys := guestPhysEnd_ge hbits
  have hend := guestMemEnd_eq l
  rcases h.placed.mmio _ (freeIds_subset _ (htook.covers_free hnext)) with ⟨_, hlow⟩ | ⟨hhigh, _⟩
  · simp only [mmioLowEnd] at hlow
    omega
  · omega

/-- With 64 bits there is only the low window, so the lowest addresses decide. -/
theorem Kept.unreserved_iff (h : Kept l s) (hbits : l.physBits = 64) {b : U64}
    (htook : Took l s.manager .mmio c b m') : (∀ x, Covers (b, c.size) x → ¬ System x) ↔
      ∀ b, Fit (freeIds (s.manager.pool .mmio)) c b →
        ∃ b', Fit (freeIds (s.manager.pool .mmio)) c b' ∧ b' + c.size ≤ 0x100000000 - 0x4000000 := by
  have hleast := htook.least
  have hpos := hleast.1.pos
  constructor
  · intro hall _ _
    refine ⟨b, hleast.1, ?_⟩
    by_contra hgt
    have htop : Covers (b, c.size) (b + c.size - 1) := ⟨by simp only; omega, by simp only; omega⟩
    refine hall _ htop ⟨by omega, ?_⟩
    have hphys : l.guestPhysEnd = 0 := by rw [Layout.guestPhysEnd, hbits]; rfl
    rcases h.placed.mmio _ (freeIds_subset _ (htook.covers_free htop)) with ⟨_, hlow⟩ | ⟨hhigh, hle⟩
    · exact hlow
    · omega
  · rintro hall x ⟨_, hlt⟩ ⟨hsys, _⟩
    obtain ⟨b', hfit, hle⟩ := hall b hleast.1
    have hmin := hleast.2 hfit
    simp only at hlt
    omega

theorem Kept.avoids_iff (h : Kept l s) (c : Constraint) :
    (∀ base m', s.manager.allocateMmioAddress checks c = .ok (some base, m') →
      ∀ x, Covers (base, c.size) x → ¬ System x) ↔ Spared l (freeIds (s.manager.pool .mmio)) c := by
  obtain ⟨base, m', hcall⟩ := allocateMmioAddress_returns checks h.orderly c
  rcases take_base h.orderly hcall with ⟨rfl, _, hno⟩ | ⟨b, rfl, htook⟩
  · refine ⟨fun _ => ?_, fun _ base m1 hsome => ?_⟩
    · unfold Spared
      split
      · exact fun b hb => absurd hb (hno b)
      · exact fun _ hb => absurd hb (hno _)
    · rw [hcall] at hsome
      cases hsome
  · have hone : (∀ base m', s.manager.allocateMmioAddress checks c = .ok (some base, m') →
        ∀ x, Covers (base, c.size) x → ¬ System x) ↔ ∀ x, Covers (b, c.size) x → ¬ System x := by
      rw [hcall]
      constructor
      · exact fun hall => hall b m' rfl
      · rintro hall base m1 hsome
        cases hsome
        exact hall
    rw [hone]
    have hleast := htook.least
    have hpos := hleast.1.pos
    unfold Spared
    split
    · rename_i hbits
      exact h.unreserved_iff hbits htook
    · rename_i hbits
      constructor
      · intro hall hsize hfit
        rcases Nat.lt_or_eq_of_le (hleast.2 hfit) with hlt | heq
        · exact ⟨b, hlt, hleast.1⟩
        · have hcov : Covers (b, c.size) 0xffffffff := ⟨Nat.le_of_eq heq, by simp only; omega⟩
          exact absurd ⟨by decide, by decide⟩ (hall _ hcov)
      · intro hspared x hx hsys
        obtain ⟨hbase, hsize⟩ := h.took_system hbits htook hx hsys
        obtain ⟨b', hlt, hfit⟩ := hspared hsize (hbase ▸ hleast.1)
        have hle := hleast.2 hfit
        omega

theorem mmio_avoids_iff {maxKvmMemSlot : Option U64} {m0 : ResourceManager} {calls : List Call}
    (hnew : new checks l maxKvmMemSlot = .ok m0) (hrun : Run (Step checks l) ⟨m0, [], []⟩ calls s) :
    (∀ a ∈ s.mmio, ∀ b ∈ s.mem, ∀ x, Covers a x → ¬ Covers b x) ∧
    ∀ c, (∀ base m', s.manager.allocateMmioAddress checks c = .ok (some base, m') →
        ∀ x, Covers (base, c.size) x → ¬ System x) ↔
      Spared l (freeIds s.manager.mmioPool) c := by
  have h := kept_run hnew hrun
  refine ⟨?_, h.avoids_iff⟩
  intro a ha b hb x hax hbx
  exact ((h.mmio a ha).2 x hax).1.not_mem ((h.mem b hb).2 x hbx)

/-- A page for a device, and then any page. -/
theorem mmio_avoids_page :
    ∃ m0 s, new true ⟨46, by decide, by decide⟩ none = .ok m0 ∧
      Run (Step true ⟨46, by decide, by decide⟩) ⟨m0, [], []⟩
        [.allocateMmio (Constraint.new 0x1000), .allocateMem (Constraint.new 0x1000)] s ∧
      ∀ base m', s.manager.allocateMmioAddress true (Constraint.new 0x1000) = .ok (some base, m') →
        ∀ x, Covers (base, 0x1000) x → ¬ System x := by
  obtain ⟨m0, hm0⟩ : ∃ m0, new true ⟨46, by decide, by decide⟩ none = .ok m0 := ⟨_, rfl⟩
  have hrun : ∃ s, Run (Step true ⟨46, by decide, by decide⟩) ⟨m0, [], []⟩
      [.allocateMmio (Constraint.new 0x1000), .allocateMem (Constraint.new 0x1000)] s := by
    cases hm0
    exact ⟨_, .cons (.allocateMmio rfl) (.cons (.allocateMem rfl) .nil)⟩
  obtain ⟨s, hrun⟩ := hrun
  refine ⟨m0, s, hm0, hrun, ?_⟩
  refine ((mmio_avoids_iff hm0 hrun).2 (Constraint.new 0x1000)).mpr ?_
  exact nofun

/-- The last byte below 4 GiB is handed out. -/
theorem last_byte_allocated :
    ∃ m0 s, new true ⟨46, by decide, by decide⟩ none = .ok m0 ∧
      Run (Step true ⟨46, by decide, by decide⟩) ⟨m0, [], []⟩
        [.allocateMmio { Constraint.new 1 with min := 0xffffffff, max := 0xffffffff }] s ∧
      ∃ a ∈ s.mmio, Covers a 0xffffffff ∧ System 0xffffffff := by
  obtain ⟨m0, hm0⟩ : ∃ m0, new true ⟨46, by decide, by decide⟩ none = .ok m0 := ⟨_, rfl⟩
  have hrun : ∃ s, Run (Step true ⟨46, by decide, by decide⟩) ⟨m0, [], []⟩
      [.allocateMmio { Constraint.new 1 with min := 0xffffffff, max := 0xffffffff }] s ∧
      s.mmio = [(0xffffffff, 1)] := by
    cases hm0
    exact ⟨_, .cons (.allocateMmio rfl) .nil, rfl⟩
  obtain ⟨s, hrun, hmmio⟩ := hrun
  refine ⟨m0, s, hm0, hrun, (0xffffffff, 1), ?_, ⟨by decide, by decide⟩, by decide, by decide⟩
  rw [hmmio]
  exact List.mem_singleton_self _

end Owned
end ResourceManager
end Resources
end Kata
