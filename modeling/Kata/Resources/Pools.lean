import Kata.Resources.Manager

/-!
# Kata.Resources.Pools

What holds of the six pools whatever calls are made. `Orderly` says that every pool is tidy and has
ids in its own bounds only; every call that returns keeps it (`orderly_step`), with any arguments,
and the constructors start with it (`orderly_initial`). The one exception is `init_mem_pool` on a
pool that is not empty, which can put two free ranges next to each other.

In an orderly manager no allocation panics, and an allocation takes the lowest ids that fit
(`take_spec`).
-/

namespace Kata.Resources

open Allocator Lib

def PoolId.lo : PoolId → Nat
  | .legacyIrq => 6
  | .msiIrq => 24
  | _ => 0

def PoolId.hi (l : Layout) : PoolId → Nat
  | .legacyIrq => 15
  | .msiIrq => 1023
  | .pio => pioMax
  | .mmio => u64Max - 1
  | .mem => l.guestMemEnd
  | .kvmMemSlot => u64Max - 1

theorem guestPhysEnd_lt (l : Layout) : l.guestPhysEnd < 2 ^ 63 := by
  have hle : l.physBits % 64 ≤ 63 := Nat.le_of_lt_succ (Nat.mod_lt _ (by decide))
  have hpow : 2 ^ (l.physBits % 64) ≤ 2 ^ 63 := Nat.pow_le_pow_right (by decide) hle
  have hpos : 0 < 2 ^ (l.physBits % 64) := Nat.two_pow_pos _
  unfold Layout.guestPhysEnd
  omega

theorem guestPhysEnd_cases (l : Layout) : l.guestPhysEnd = 0 ∨ 2 ^ 36 - 1 ≤ l.guestPhysEnd := by
  have hge := l.physBits_ge
  have hle := l.physBits_le
  unfold Layout.guestPhysEnd
  rcases Nat.lt_or_eq_of_le hle with hlt | heq
  · right
    rw [Nat.mod_eq_of_lt hlt]
    have hpow : 2 ^ 36 ≤ 2 ^ l.physBits := Nat.pow_le_pow_right (by decide) hge
    omega
  · left
    rw [heq]
    rfl

theorem guestMemEnd_eq (l : Layout) : l.guestMemEnd = l.guestPhysEnd / 2 := by
  unfold Layout.guestMemEnd
  rw [Nat.shiftRight_eq_div_pow, Nat.pow_one]

theorem hi_lt (l : Layout) (id : PoolId) : id.hi l < u64Max := by
  have h1 := guestPhysEnd_lt l
  have h2 := guestMemEnd_eq l
  cases id <;> simp only [PoolId.hi, pioMax, u64Max] <;> omega

namespace ResourceManager

/-- Every pool is tidy. -/
def Orderly (l : Layout) (m : ResourceManager) : Prop := ∀ id, Tidy id.lo (id.hi l) (m.pool id)

variable {checks : Bool} {l : Layout} {m m' : ResourceManager} {id : PoolId} {c : Constraint}

variable {t : IntervalTree Unit}

theorem Orderly.setPool (h : Orderly l m) (ht : Tidy id.lo (id.hi l) t) : Orderly l (m.setPool t id) := by
  intro id'
  by_cases hid : id' = id
  · subst hid
    rw [pool_setPool]
    exact ht
  · rw [pool_setPool_ne _ _ hid]
    exact h id'

/-! ## Allocation -/

/-- What `take` does to the pool it takes from, and to the others. -/
structure Took (l : Layout) (m : ResourceManager) (id : PoolId) (c : Constraint) (s : Nat)
    (m' : ResourceManager) : Prop where
  least : IsLeast {s | Fit (freeIds (m.pool id)) c s} s
  orderly : Orderly l m'
  other : ∀ {id'}, id' ≠ id → m'.pool id' = m.pool id'
  free : freeIds (m'.pool id) = freeIds (m.pool id) \ {x | (IntervalTree.rangeAt c s).Has x}
  fresh : ¬ Busy (m.pool id) (IntervalTree.rangeAt c s)
  busy : Busy (m'.pool id) (IntervalTree.rangeAt c s)
  keeps : ∀ {k}, Busy (m.pool id) k → Busy (m'.pool id) k
  debt : ∀ {t0 live}, Debt t0 live (m.pool id) →
    IntervalTree.rangeAt c s ∉ live ∧ Debt t0 (insert (IntervalTree.rangeAt c s) live) (m'.pool id)

theorem update_ok {key : Range} (hi : t.Inv) (hb : Busy t key) : ∃ old t', t.update key () = .ok (old, t') := by
  obtain ⟨st, hst, hmem⟩ := hb
  have hnot : (key, .free) ∉ t.entries := by
    intro hfree
    have hw := (hi.ordered.1 _ hmem).min_le_max
    have heq := hi.ordered.eq_of_has hmem hfree ⟨Nat.le_refl _, hw⟩ ⟨Nat.le_refl _, hw⟩
    exact hst (congrArg Prod.snd heq)
  obtain ⟨old, t', ht', _⟩ := IntervalTree.update_inv () hi hnot
  exact ⟨old, t', ht'⟩

theorem take_spec (checks : Bool) (h : Orderly l m) (id : PoolId) (c : Constraint) (mark : Bool) :
    (m.take checks id c mark = .ok (none, m) ∧ ∀ s, ¬ Fit (freeIds (m.pool id)) c s) ∨
    ∃ s m', m.take checks id c mark = .ok (some (IntervalTree.rangeAt c s), m') ∧ Took l m id c s m' := by
  rcases (h id).allocate checks (hi_lt l id) c with ⟨hnone, hno⟩ | ⟨s, t, ht, htaken⟩
  · refine .inl ⟨?_, hno⟩
    simp [take, hnone]
  · have hbusy : Busy t (IntervalTree.rangeAt c s) :=
      ⟨.allocated, by simp, (htaken.effect.busy _ (by simp)).mpr (.inr rfl)⟩
    have hkeeps : ∀ {k}, Busy (m.pool id) k → Busy t k := by
      rintro k ⟨st, hst, hmem⟩
      exact ⟨st, hst, (htaken.effect.busy _ hst).mpr (.inl hmem)⟩
    have hfree : freeIds t = freeIds (m.pool id) \ {x | (IntervalTree.rangeAt c s).Has x} :=
      Set.ext htaken.free
    obtain ⟨old, t', ht'⟩ := update_ok htaken.tidy.inv hbusy
    cases mark with
    | false =>
      refine .inr ⟨s, m.setPool t id, by simp [take, ht], htaken.least, h.setPool htaken.tidy,
        pool_setPool_ne _ _, ?_, htaken.effect.fresh, ?_, ?_, ?_⟩
      · rw [pool_setPool]
        exact hfree
      · rw [pool_setPool]
        exact hbusy
      · intro k hk
        rw [pool_setPool]
        exact hkeeps hk
      · intro t0 live hd
        rw [pool_setPool]
        exact hd.allocate htaken.effect
    | true =>
      obtain ⟨_, _, _, hkeep', _⟩ := updateEffect htaken.tidy.inv ht'
      refine .inr ⟨s, m.setPool t' id, by simp [take, ht, ht'], htaken.least,
        h.setPool (htaken.tidy.update ht'), pool_setPool_ne _ _, ?_, htaken.effect.fresh, ?_, ?_, ?_⟩
      · rw [pool_setPool, freeIds_update htaken.tidy.inv hbusy ht']
        exact hfree
      · rw [pool_setPool]
        exact hkeep' _ hbusy
      · intro k hk
        rw [pool_setPool]
        exact hkeep' _ (hkeeps hk)
      · intro t0 live hd
        rw [pool_setPool]
        obtain ⟨hnew, hd'⟩ := hd.allocate htaken.effect
        exact ⟨hnew, hd'.update (Set.mem_insert _ _) ht'⟩

theorem take_orderly {mark : Bool} {key : Option Range} (h : Orderly l m)
    (ht : m.take checks id c mark = .ok (key, m')) : Orderly l m' := by
  rcases take_spec checks h id c mark with ⟨hnone, _⟩ | ⟨s, m1, hsome, htook⟩
  · rw [hnone] at ht
    cases ht
    exact h
  · rw [hsome] at ht
    cases ht
    exact htook.orderly

/-- What a request comes down to. -/
inductive Demand where
  | shared  -- the IRQ that all devices share
  | refused
  | range (id : PoolId) (c : Constraint)

def demand (shared : Bool) : ResourceConstraint → Demand
  | .pioAddress range align size =>
    .range .pio (bounded { Constraint.new (ofU16 size) with align := ofU16 align }
      (range.map fun r => (ofU16 r.1, ofU16 r.2)))
  | .mmioAddress range align size => .range .mmio (bounded { Constraint.new size with align := align } range)
  | .memAddress range align size => .range .mem (bounded { Constraint.new size with align := align } range)
  | .legacyIrq irq =>
    if shared then .shared
    else
      match irq with
      | some v =>
        if v = sharedIrq then .refused
        else .range .legacyIrq { Constraint.new 1 with min := ofU32 v, max := ofU32 v }
      | none => .range .legacyIrq (Constraint.new 1)
  | .pciMsiIrq size => .range .msiIrq { Constraint.new (ofU32 size) with align := ofU32 size }
  | .pciMsixIrq size => .range .msiIrq (Constraint.new (ofU32 size))
  | .genericIrq size => .range .msiIrq (Constraint.new (ofU32 size))
  | .kvmMemSlot (some v) size =>
    .range .kvmMemSlot { Constraint.new (ofU32 size) with min := ofU32 v, max := ofU32 v }
  | .kvmMemSlot none size => .range .kvmMemSlot (Constraint.new (ofU32 size))

/-- The resource that stands for the ids from `s` on. -/
def grant (s : Nat) : ResourceConstraint → Resource
  | .pioAddress _ _ size => .pioAddressRange (UInt16.ofNat s) size
  | .mmioAddress _ _ size => .mmioAddressRange (Fin.ofNat _ s) size
  | .memAddress _ _ size => .memAddressRange (Fin.ofNat _ s) size
  | .legacyIrq _ => .legacyIrq (UInt32.ofNat s)
  | .pciMsiIrq size => .msiIrq .pciMsi (UInt32.ofNat s) size
  | .pciMsixIrq size => .msiIrq .pciMsix (UInt32.ofNat s) size
  | .genericIrq size => .msiIrq .genericMsi (UInt32.ofNat s) size
  | .kvmMemSlot _ _ => .kvmMemSlot (UInt32.ofNat s)

/-- The pools that mark what is allocated. -/
def PoolId.marks : PoolId → Bool
  | .mmio => false
  | .mem => false
  | _ => true

theorem map_bind_map {β : Type} (x : Except Panic (Option Range × ResourceManager)) (f : Range → β)
    (g : β → Resource) : (do
      let (b, m) ← (do let (key, m) ← x; return (key.map f, m))
      return (b.map g, m)) = do
      let (key, m) ← x
      return (key.map fun k => g (f k), m) := by
  rcases x with e | ⟨_ | k, m⟩
  · rfl
  · rfl
  · rfl

theorem allocateOne_eq (checks : Bool) (m : ResourceManager) (shared : Bool) (req : ResourceConstraint) :
    m.allocateOne checks shared req =
      match demand shared req with
      | .shared => .ok (some (.legacyIrq sharedIrq), m)
      | .refused => .ok (none, m)
      | .range id c => do
        let (key, m) ← m.take checks id c (PoolId.marks id)
        return (key.map fun k => grant k.min req, m) := by
  cases req with
  | pioAddress range align size | mmioAddress range align size | memAddress range align size
  | pciMsiIrq size | pciMsixIrq size | genericIrq size => exact map_bind_map _ _ _
  | legacyIrq irq =>
    simp only [allocateOne, allocateLegacyIrq, demand]
    cases shared with
    | true => rfl
    | false =>
      cases irq with
      | none => exact map_bind_map _ _ _
      | some v =>
        by_cases hv : v = sharedIrq
        · simp [hv]
        · simp only [hv, if_false, Bool.false_eq_true]
          exact map_bind_map _ _ _
  | kvmMemSlot slot size =>
    cases slot with
    | none | some v => exact map_bind_map _ _ _

/-- A request is granted the lowest free ids that fit. -/
theorem allocateOne_spec (checks : Bool) (h : Orderly l m) (shared : Bool) (req : ResourceConstraint) :
    (demand shared req = .shared ∧
      m.allocateOne checks shared req = .ok (some (.legacyIrq sharedIrq), m)) ∨ ((demand shared req = .refused ∨
        ∃ id c, demand shared req = .range id c ∧ ∀ s, ¬ Fit (freeIds (m.pool id)) c s) ∧
      m.allocateOne checks shared req = .ok (none, m)) ∨
    ∃ id c s m', demand shared req = .range id c ∧
      m.allocateOne checks shared req = .ok (some (grant s req), m') ∧ Took l m id c s m' := by
  rw [allocateOne_eq]
  cases hd : demand shared req with
  | shared => exact .inl ⟨rfl, rfl⟩
  | refused => exact .inr (.inl ⟨.inl rfl, rfl⟩)
  | range id c =>
    rcases take_spec checks h id c (PoolId.marks id) with ⟨hnone, hno⟩ | ⟨s, m', hsome, htook⟩
    · refine .inr (.inl ⟨.inr ⟨id, c, rfl, hno⟩, ?_⟩)
      simp only [hnone, ok_bind]
      rfl
    · refine .inr (.inr ⟨id, c, s, m', rfl, ?_, htook⟩)
      simp only [hsome, ok_bind]
      rfl

/-! ## Freeing -/

section Release

variable {min max : Nat} {result : Except ResourceError Unit}

theorem release_freed (h : Orderly l m) (hmax : max ≤ u64Max) (hr : m.release checks id min max = .ok (result, m')) :
    result = .ok () ∧ min ≤ max ∧ Freed (m.pool id) ⟨min, max⟩ (m'.pool id) ∧
      ∀ {id'}, id' ≠ id → m'.pool id' = m.pool id' := by
  unfold release at hr
  obtain ⟨key, hkey, hfree⟩ := bind_eq_ok.mp hr
  obtain ⟨rfl, hle, _⟩ := Range.of_new hkey
  obtain ⟨⟨old, t⟩, ht, hout⟩ := bind_eq_ok.mp hfree
  cases hout
  refine ⟨rfl, hle, ?_, pool_setPool_ne _ _⟩
  rw [pool_setPool]
  exact free_freed (h id).inv ⟨hle, hmax⟩ ht

theorem release_orderly (h : Orderly l m) (hlo : id.lo ≤ min) (hhi : max ≤ id.hi l)
    (hr : m.release checks id min max = .ok (result, m')) : Orderly l m' := by
  have hlt := hi_lt l id
  obtain ⟨_, _, hfreed, hother⟩ := release_freed h (by omega) hr
  intro id'
  by_cases hid : id' = id
  · subst hid
    exact (h id').freed hlo hhi hfreed
  · rw [hother hid]
    exact h id'

end Release

/-- The pool and the range that a resource is freed in; nothing is freed for a shared IRQ and for
what is refused. -/
def Resource.key (l : Layout) : Resource → Option (PoolId × Range)
  | .pioAddressRange base size =>
    if base.toNat + size.toNat < 2 ^ 16 then some (.pio, ⟨base.toNat, base.toNat + size.toNat - 1⟩)
    else none
  | .mmioAddressRange base size =>
    if base.val + size.val ≤ u64Max then some (.mmio, ⟨base, base.val + size.val - 1⟩) else none
  | .memAddressRange base size =>
    if base.val + size.val ≤ l.guestMemEnd then some (.mem, ⟨base, base.val + size.val - 1⟩) else none
  | .legacyIrq irq =>
    if irq ≠ sharedIrq ∧ legacyIrqBase ≤ irq ∧ irq ≤ legacyIrqMax then
      some (.legacyIrq, ⟨irq.toNat, irq.toNat⟩)
    else none
  | .msiIrq _ base size =>
    if msiIrqBase ≤ base ∧ base.toNat + size.toNat ≤ 1024 then
      some (.msiIrq, ⟨base.toNat, base.toNat + size.toNat - 1⟩)
    else none
  | .macAddress _ => none
  | .kvmMemSlot slot => some (.kvmMemSlot, ⟨slot.toNat, slot.toNat⟩)

/-- Only a range with a size can be allocated. -/
def Resource.Sized : Resource → Prop
  | .pioAddressRange _ size => 0 < size.toNat
  | .mmioAddressRange _ size => 0 < size.val
  | .memAddressRange _ size => 0 < size.val
  | .msiIrq _ _ size => 0 < size.toNat
  | _ => True

section FreeOne

variable {res : Resource} {result : Except ResourceError Unit}

theorem freeOne_key (checks : Bool) (m : ResourceManager) {k : Range} (hs : Resource.Sized res)
    (hk : Resource.key l res = some (id, k)) : m.freeOne checks l res = m.release checks id k.min k.max := by
  have hsub : ∀ {base size : U64}, 0 < size.val →
      subU64 checks (base.val + size.val) 1 = .ok (base.val + size.val - 1) := fun hpos => subU64_of_le (by omega)
  cases res with
  | pioAddressRange base size =>
    have hs : 0 < size.toNat := hs
    obtain ⟨hlt, ⟨⟩⟩ := Option.ite_none_right_eq_some.mp hk
    have hsub : subU16 checks (base.toNat + size.toNat) 1 = .ok (base.toNat + size.toNat - 1) :=
      if_pos (by omega)
    simp only [freeOne, freePioAddress, if_neg (Nat.not_le.mpr hlt), hsub, ok_bind]
  | mmioAddressRange base size =>
    obtain ⟨hle, ⟨⟩⟩ := Option.ite_none_right_eq_some.mp hk
    simp only [freeOne, freeMmioAddress, if_neg (Nat.not_lt.mpr hle), hsub hs, ok_bind]
  | memAddressRange base size =>
    have hlt : l.guestMemEnd < u64Max := hi_lt l .mem
    obtain ⟨hle, ⟨⟩⟩ := Option.ite_none_right_eq_some.mp hk
    have hok : ¬ (u64Max < base.val + size.val ∨ base.val < guestMemStart ∨
        base.val + size.val > l.guestMemEnd) := by
      simp only [guestMemStart]
      omega
    simp only [freeOne, freeMemAddress, if_neg hok, hsub hs, ok_bind]
  | legacyIrq irq =>
    obtain ⟨⟨hne, hrange⟩, ⟨⟩⟩ := Option.ite_none_right_eq_some.mp hk
    simp only [freeOne, freeLegacyIrq, if_neg hne, hrange, and_self, not_true, if_false]
  | msiIrq ty base size =>
    have hs : 0 < size.toNat := hs
    obtain ⟨⟨hbase, hle⟩, ⟨⟩⟩ := Option.ite_none_right_eq_some.mp hk
    have hok : ¬ (base < msiIrqBase ∨ size = 0 ∨ 2 ^ 32 ≤ base.toNat + size.toNat ∨
        base.toNat + size.toNat - 1 > msiIrqMax.toNat) := by
      have hmax : msiIrqMax.toNat = 1023 := rfl
      have hne : size ≠ 0 := by
        intro h0
        rw [h0] at hs
        cases hs
      rintro (h | h | h | h)
      · exact absurd hbase (UInt32.not_le.mpr h)
      · exact hne h
      · omega
      · omega
    simp only [freeOne, freeMsiIrq, if_neg hok]
  | macAddress addr => cases hk
  | kvmMemSlot slot =>
    cases hk
    rfl

/-- The end of an empty range at 0 wraps around, and the range of all ids is refused. -/
theorem release_sub {base size : U64}
    (hr : (do m.release checks id base (← subU64 checks (base.val + size.val) 1)) = .ok (result, m')) :
    0 < base.val + size.val ∧ m.release checks id base (base.val + size.val - 1) = .ok (result, m') := by
  obtain ⟨top, htop, hrel⟩ := bind_eq_ok.mp hr
  rcases Nat.eq_zero_or_pos (base.val + size.val) with h0 | hpos
  · have hbase : base.val = 0 := by omega
    rw [h0, subU64, if_neg (by decide)] at htop
    split at htop
    · cases htop
    · cases htop
      rw [hbase] at hrel
      cases hrel
  · rw [subU64_of_le hpos] at htop
    cases htop
    exact ⟨hpos, hrel⟩

theorem freePioAddress_cases {base size : UInt16} (hr : m.freePioAddress checks base size = .ok (result, m')) :
    m' = m ∨ ∃ top, m.release checks .pio base.toNat top = .ok (result, m') ∧ top ≤ pioMax ∧
      (0 < size.toNat → base.toNat + size.toNat < 2 ^ 16 ∧ top = base.toNat + size.toNat - 1) := by
  unfold freePioAddress at hr
  split at hr
  · cases hr
    exact .inl rfl
  · rename_i hlt
    obtain ⟨top, htop, hrel⟩ := bind_eq_ok.mp hr
    refine .inr ⟨top, hrel, ?_, ?_⟩
    · simp only [subU16] at htop
      simp only [pioMax]
      split at htop
      · cases htop
        omega
      · split at htop
        · cases htop
        · cases htop
          omega
    · intro hs
      rw [subU16, if_pos (by omega)] at htop
      cases htop
      exact ⟨Nat.not_le.mp hlt, rfl⟩

theorem freeLegacyIrq_cases {irq : UInt32} (hr : m.freeLegacyIrq checks irq = .ok (result, m')) :
    m' = m ∨ (m.release checks .legacyIrq irq.toNat irq.toNat = .ok (result, m') ∧
      irq ≠ sharedIrq ∧ legacyIrqBase ≤ irq ∧ irq ≤ legacyIrqMax) := by
  unfold freeLegacyIrq at hr
  split at hr
  · cases hr
    exact .inl rfl
  · rename_i hne
    split at hr
    · cases hr
      exact .inl rfl
    · rename_i hrange
      exact .inr ⟨hr, hne, Classical.not_not.mp hrange⟩

theorem freeMsiIrq_cases {base size : UInt32} (hr : m.freeMsiIrq checks base size = .ok (result, m')) :
    m' = m ∨ (m.release checks .msiIrq base.toNat (base.toNat + size.toNat - 1) = .ok (result, m') ∧
      msiIrqBase ≤ base ∧ base.toNat + size.toNat ≤ 1024) := by
  unfold freeMsiIrq at hr
  split at hr
  · cases hr
    exact .inl rfl
  · rename_i hok
    simp only [not_or, UInt32.not_lt] at hok
    obtain ⟨hbase, hne, _, hmax⟩ := hok
    have h1023 : msiIrqMax.toNat = 1023 := rfl
    exact .inr ⟨hr, hbase, by omega⟩

/-- Freeing a resource does nothing, or frees a range in the bounds of a pool. -/
theorem freeOne_release (hr : m.freeOne checks l res = .ok (result, m')) :
    m' = m ∨ ∃ id min max, m.release checks id min max = .ok (result, m') ∧ PoolId.lo id ≤ min ∧
      max ≤ id.hi l ∧ (Resource.Sized res → Resource.key l res = some (id, ⟨min, max⟩)) := by
  cases res with
  | pioAddressRange base size =>
    obtain rfl | ⟨top, hrel, hmax, htop⟩ := freePioAddress_cases hr
    · exact .inl rfl
    · refine .inr ⟨.pio, base.toNat, top, hrel, Nat.zero_le _, hmax, ?_⟩
      intro hs
      obtain ⟨hlt, rfl⟩ := htop hs
      exact if_pos hlt
  | mmioAddressRange base size =>
    simp only [freeOne, freeMmioAddress] at hr
    split at hr
    · cases hr
      exact .inl rfl
    · rename_i hle
      obtain ⟨hpos, hrel⟩ := release_sub hr
      refine .inr ⟨.mmio, base, _, hrel, Nat.zero_le _, ?_, fun _ => if_pos (by omega)⟩
      simp only [PoolId.hi]
      omega
  | memAddressRange base size =>
    simp only [freeOne, freeMemAddress] at hr
    split at hr
    · cases hr
      exact .inl rfl
    · rename_i hle
      obtain ⟨hpos, hrel⟩ := release_sub hr
      refine .inr ⟨.mem, base, _, hrel, Nat.zero_le _, ?_, fun _ => if_pos (by omega)⟩
      simp only [PoolId.hi]
      omega
  | legacyIrq irq =>
    obtain rfl | ⟨hrel, hne, hbase, hmax⟩ := freeLegacyIrq_cases hr
    · exact .inl rfl
    · refine .inr ⟨.legacyIrq, irq.toNat, irq.toNat, hrel, ?_, UInt32.le_iff_toNat_le.mp hmax, ?_⟩
      · have hge : 5 ≤ irq.toNat := UInt32.le_iff_toNat_le.mp hbase
        have h5 : irq.toNat ≠ 5 := fun heq => hne (UInt32.toNat_inj.mp heq)
        simp only [PoolId.lo]
        omega
      · intro _
        exact if_pos ⟨hne, hbase, hmax⟩
  | msiIrq ty base size =>
    obtain rfl | ⟨hrel, hbase, hle⟩ := freeMsiIrq_cases hr
    · exact .inl rfl
    · have hge : 24 ≤ base.toNat := UInt32.le_iff_toNat_le.mp hbase
      refine .inr ⟨.msiIrq, base.toNat, _, hrel, hge, ?_, fun _ => if_pos ⟨hbase, hle⟩⟩
      simp only [PoolId.hi]
      omega
  | macAddress addr =>
    cases hr
    exact .inl rfl
  | kvmMemSlot slot =>
    have hlt := slot.toNat_lt
    refine .inr ⟨.kvmMemSlot, slot.toNat, slot.toNat, hr, Nat.zero_le _, ?_, fun _ => rfl⟩
    simp only [PoolId.hi, u64Max]
    omega

theorem freeOne_orderly (h : Orderly l m) (hr : m.freeOne checks l res = .ok (result, m')) : Orderly l m' := by
  obtain rfl | ⟨id, min, max, hrel, hlo, hhi, _⟩ := freeOne_release hr
  · exact h
  · exact release_orderly h hlo hhi hrel

theorem freeDeviceResources_orderly {resources : List Resource} (h : Orderly l m)
    (hr : m.freeDeviceResources checks l resources = .ok (result, m')) : Orderly l m' := by
  induction resources generalizing m with
  | nil =>
    cases hr
    exact h
  | cons res rest ih =>
    simp only [freeDeviceResources] at hr
    obtain ⟨⟨one, m1⟩, hone, hr⟩ := bind_eq_ok.mp hr
    have h1 := freeOne_orderly h hone
    cases one with
    | error e =>
      cases hr
      exact h1
    | ok u => exact ih h1 hr

end FreeOne

/-! ## Runs -/

section Runs

variable {resources : List Resource} {result : Except ResourceError (List Resource)}

theorem rollback_orderly (h : Orderly l m) (hr : m.rollback checks l resources = .ok (result, m')) :
    Orderly l m' := by
  unfold rollback at hr
  obtain ⟨⟨freed, m1⟩, hfree, hr⟩ := bind_eq_ok.mp hr
  have h1 := freeDeviceResources_orderly h hfree
  cases freed with
  | error e | ok u =>
    cases hr
    exact h1

variable {shared : Bool}

theorem allocateLoop_orderly {requests : List ResourceConstraint} (h : Orderly l m)
    (hr : m.allocateLoop checks l shared resources requests = .ok (result, m')) : Orderly l m' := by
  induction requests generalizing m resources with
  | nil =>
    cases hr
    exact h
  | cons req rest ih =>
    rw [allocateLoop] at hr
    rcases allocateOne_spec checks h shared req with
      ⟨_, hone⟩ | ⟨_, hone⟩ | ⟨id, c, s, m1, _, hone, htook⟩
    · rw [hone] at hr
      exact ih h hr
    · rw [hone] at hr
      exact rollback_orderly h hr
    · rw [hone] at hr
      exact ih htook.orderly hr

theorem unsplit_eq (h : 2 ^ 36 - 1 ≤ l.guestPhysEnd) : Layout.unsplit l = false := by
  have h2 := guestMemEnd_eq l
  have h3 : decide (l.guestMemEnd < mmioLowStart) = false := by
    rw [decide_eq_false_iff_not, mmioLowStart]
    omega
  rw [Layout.unsplit, h3]
  rfl

theorem unsplit_zero (h : l.guestPhysEnd = 0) : Layout.unsplit l = true := by
  have h2 := guestMemEnd_eq l
  have h3 : decide (l.guestMemEnd < mmioLowStart) = true := by
    rw [decide_eq_true_iff, h2, h]
    decide
  rw [Layout.unsplit, h3]
  rfl

variable {t : IntervalTree Unit}

theorem initMemPoolHelper_split (h1 : 2 ^ 36 - 1 ≤ l.guestPhysEnd) (h : initMemPoolHelper l .new = .ok t) :
    mmioLowEnd + 1 ≤ l.guestMemEnd ∧ ∃ low, IntervalTree.insert .new
      ⟨guestMemStart, mmioLowStart - 1⟩ none = .ok low ∧
      IntervalTree.insert low ⟨mmioLowEnd + 1, l.guestMemEnd⟩ none = .ok t := by
  have h2 := guestMemEnd_eq l
  rw [initMemPoolHelper, unsplit_eq h1, if_neg (by decide), if_pos (by decide)] at h
  obtain ⟨key, hkey, hrest⟩ := bind_eq_ok.mp h
  obtain ⟨low, hlow, hsecond⟩ := bind_eq_ok.mp hrest
  simp only [show mmioLowEnd < l.guestMemEnd by simp only [mmioLowEnd]; omega, if_true] at hsecond
  obtain ⟨high, hhigh, hins⟩ := bind_eq_ok.mp hsecond
  obtain ⟨rfl, _, _⟩ := Range.of_new hkey
  obtain ⟨rfl, hle, _⟩ := Range.of_new hhigh
  exact ⟨hle, low, hlow, hins⟩

theorem tidy_initMemPoolHelper (h : initMemPoolHelper l .new = .ok t) : Tidy 0 l.guestMemEnd t := by
  have h2 := guestMemEnd_eq l
  have h3 := hi_lt l .mem
  simp only [PoolId.hi, u64Max] at h3
  rcases guestPhysEnd_cases l with h0 | h1
  · rw [initMemPoolHelper, unsplit_zero h0, if_pos rfl] at h
    obtain ⟨key, hkey, hins⟩ := bind_eq_ok.mp h
    obtain ⟨rfl, hle, _⟩ := Range.of_new hkey
    exact tidy_insert_new ⟨hle, by simp only [u64Max]; omega⟩ hins
  · obtain ⟨hle, low, hlow, hins⟩ := initMemPoolHelper_split h1 h
    have htidy := tidy_insert_new ⟨by decide, by decide⟩ hlow
    have hgap : mmioLowStart - 1 + 1 < mmioLowEnd + 1 := by decide
    exact htidy.insert ⟨hle, by simp only [u64Max]; omega⟩ (Nat.zero_le _) hgap hins

theorem tidy_reserveMmio {lo hi : Nat} {t t' : IntervalTree Unit} (ht : Tidy lo hi t) (hhi : hi < u64Max)
    (h : reserveMmio checks t = .ok t') : Tidy lo hi t' := by
  unfold reserveMmio at h
  obtain ⟨⟨key, t1⟩, halloc, h⟩ := bind_eq_ok.mp h
  have halloc := of_mapError_ok halloc
  rcases ht.allocate checks hhi _ with ⟨hnone, _⟩ | ⟨s, t2, hsome, htaken⟩
  · rw [hnone] at halloc
    cases halloc
    cases h
  · rw [hsome] at halloc
    cases halloc
    obtain ⟨⟨old, t3⟩, hupd, h⟩ := bind_eq_ok.mp h
    cases h
    exact htaken.tidy.update (of_mapError_ok hupd)

theorem tidy_initMmioPoolHelper (h : initMmioPoolHelper checks l .new = .ok t) : Tidy 0 (u64Max - 1) t := by
  have h2 := guestMemEnd_eq l
  have h3 := guestPhysEnd_lt l
  have hwindowTidy : ∀ {key : Range} {t : IntervalTree Unit}, Range.new mmioLowStart mmioLowEnd = .ok key →
      IntervalTree.insert .new key none = .ok t → Tidy mmioLowStart mmioLowEnd t := by
    intro key t hkey ht
    obtain ⟨rfl, _, _⟩ := Range.of_new hkey
    exact tidy_insert_new ⟨by decide, by decide⟩ ht
  rcases guestPhysEnd_cases l with h0 | h1
  · have hnone : ¬ l.guestMemEnd < l.guestPhysEnd := by omega
    simp only [initMmioPoolHelper, unsplit_zero h0, Bool.not_true, Bool.false_eq_true, if_false, hnone,
      ok_bind] at h
    obtain ⟨window, hwindow, hrest⟩ := bind_eq_ok.mp h
    obtain ⟨t1, hlow, hrest1⟩ := bind_eq_ok.mp hrest
    cases hrest1
    exact (hwindowTidy (of_mapError_ok hwindow) (of_mapError_ok hlow)).mono (Nat.zero_le _) (by decide)
  · have hsome : l.guestMemEnd < l.guestPhysEnd := by omega
    simp only [initMmioPoolHelper, unsplit_eq h1, Bool.not_false, if_true, hsome] at h
    obtain ⟨window, hwindow, hrest⟩ := bind_eq_ok.mp h
    obtain ⟨t1, hlow, hrest1⟩ := bind_eq_ok.mp hrest
    obtain ⟨t2, hreserve, hrest2⟩ := bind_eq_ok.mp hrest1
    obtain ⟨high, hhigh, hins⟩ := bind_eq_ok.mp hrest2
    obtain ⟨rfl, hle, _⟩ := Range.of_new (of_mapError_ok hhigh)
    have htidy := hwindowTidy (of_mapError_ok hwindow) (of_mapError_ok hlow)
    have htidy2 := tidy_reserveMmio htidy (by decide) hreserve
    have hgap : mmioLowEnd + 1 < l.guestMemEnd + 1 := by
      simp only [mmioLowEnd]
      omega
    have hstart : mmioLowStart ≤ l.guestMemEnd + 1 := by
      simp only [mmioLowStart]
      omega
    refine (htidy2.insert ⟨hle, ?_⟩ hstart hgap (of_mapError_ok hins)).mono (Nat.zero_le _) ?_
    · simp only [u64Max]
      omega
    · simp only [u64Max]
      omega

theorem tidy_single {min max : Nat} {key : Range} (hmax : max ≤ u64Max)
    (hkey : (Range.new min max).mapError InitPanic.allocator = .ok key)
    (ht : (IntervalTree.insert .new key none).mapError InitPanic.allocator = .ok t) :
    (min ≠ 0 ∨ max ≠ u64Max) ∧ Tidy min max t := by
  obtain ⟨rfl, hle, hfull⟩ := Range.of_new (of_mapError_ok hkey)
  refine ⟨?_, tidy_insert_new ⟨hle, hmax⟩ (of_mapError_ok ht)⟩
  by_contra hall
  rw [not_or, not_not, not_not] at hall
  obtain ⟨rfl, rfl⟩ := hall
  exact hfull rfl

theorem new_ok {maxKvmMemSlot : Option U64} (h : new checks l maxKvmMemSlot = .ok m) :
    Orderly l m ∧ initMmioPoolHelper checks l .new = .ok m.mmioPool ∧ initMemPoolHelper l .new = .ok m.memPool := by
  unfold new at h
  obtain ⟨legacy, hlegacy, h⟩ := bind_eq_ok.mp h
  obtain ⟨msi, hmsi, h⟩ := bind_eq_ok.mp h
  obtain ⟨pio, hpio, h⟩ := bind_eq_ok.mp h
  obtain ⟨slots, hslots, h⟩ := bind_eq_ok.mp h
  obtain ⟨legacyPool, hlegacyPool, h⟩ := bind_eq_ok.mp h
  obtain ⟨msiPool, hmsiPool, h⟩ := bind_eq_ok.mp h
  obtain ⟨pioPool, hpioPool, h⟩ := bind_eq_ok.mp h
  obtain ⟨mmioPool, hmmioPool, h⟩ := bind_eq_ok.mp h
  obtain ⟨memPool, hmemPool, h⟩ := bind_eq_ok.mp h
  obtain ⟨kvmPool, hkvmPool, h⟩ := bind_eq_ok.mp h
  cases h
  have hmem := of_mapError_ok hmemPool
  refine ⟨?_, hmmioPool, hmem⟩
  intro id
  cases id with
  | legacyIrq => exact (tidy_single (by decide) hlegacy hlegacyPool).2
  | msiIrq => exact (tidy_single (by decide) hmsi hmsiPool).2
  | pio => exact (tidy_single (by decide) hpio hpioPool).2
  | mmio => exact tidy_initMmioPoolHelper hmmioPool
  | mem => exact tidy_initMemPoolHelper hmem
  | kvmMemSlot =>
    have hslotsTidy : ∀ {n}, n ≤ u64Max → (Range.new 0 n).mapError InitPanic.allocator = .ok slots →
        Tidy 0 (u64Max - 1) kvmPool := by
      intro n hn hs
      obtain ⟨hfull, htidy⟩ := tidy_single hn hs hkvmPool
      exact htidy.mono (Nat.le_refl _) (by omega)
    cases maxKvmMemSlot with
    | none => exact hslotsTidy (by decide) hslots
    | some n => exact hslotsTidy (Nat.le_of_lt_succ n.isLt) hslots

theorem orderly_initial (h : Initial checks l m) : Orderly l m := by
  cases h with
  | default =>
    intro id
    cases id <;> exact ⟨IntervalTree.inv_new, nofun, nofun⟩
  | new h => exact (new_ok h).1

/-- `init_mem_pool` is called for an empty pool only. -/
def Guarded (checks : Bool) (l : Layout) (m : ResourceManager) (op : Op) (m' : ResourceManager) : Prop :=
  Step checks l m op m' ∧ (op = .initMemPool → m.memPool = .new)

/-- A call of which only the state that it leaves is looked at. -/
theorem call_orderly {β : Type} {call : Except Panic (β × ResourceManager)}
    (hcall : ∀ out, call = .ok out → Orderly l out.2) (hs : (do return (← call).2) = Except.ok m') :
    Orderly l m' := by
  obtain ⟨out, hout, hret⟩ := bind_eq_ok.mp hs
  cases hret
  exact hcall out hout

theorem take_answer_orderly {β : Type} {mark : Bool} {f : Option Range → β} {out : β × ResourceManager}
    (h : Orderly l m) (hr : (do let (key, m) ← m.take checks id c mark; return (f key, m)) = .ok out) :
    Orderly l out.2 := by
  obtain ⟨⟨key, m1⟩, ht, hret⟩ := bind_eq_ok.mp hr
  cases hret
  exact take_orderly h ht

theorem allocateLegacyIrq_orderly {fixed : Option UInt32} {out : Option UInt32 × ResourceManager}
    (h : Orderly l m) (hr : m.allocateLegacyIrq checks shared fixed = .ok out) : Orderly l out.2 := by
  unfold allocateLegacyIrq at hr
  cases shared with
  | true =>
    cases hr
    exact h
  | false =>
    cases fixed with
    | none => exact take_answer_orderly h hr
    | some v =>
      simp only [Bool.false_eq_true, if_false] at hr
      split at hr
      · cases hr
        exact h
      · exact take_answer_orderly h hr

theorem orderly_step {op : Op} (h : Orderly l m) (hs : Guarded checks l m op m') : Orderly l m' := by
  obtain ⟨hs, hguard⟩ := hs
  unfold Step at hs
  -- a call that frees is `freeOne` at the resource that it frees
  have hfree : ∀ res out, m.freeOne checks l res = .ok out → Orderly l out.2 := by
    intro res out hr
    exact freeOne_orderly h hr
  cases op with
  | initMemPool =>
    obtain ⟨t, ht, hs⟩ := bind_eq_ok.mp hs
    cases hs
    rw [hguard rfl] at ht
    have htidy : Tidy (PoolId.lo .mem) (PoolId.hi l .mem) t := tidy_initMemPoolHelper ht
    exact h.setPool htidy
  | allocateLegacyIrq shared fixed => exact call_orderly (fun _ => allocateLegacyIrq_orderly h) hs
  | allocateMsiIrq count | allocateMsiIrqAligned count | allocatePioAddress c | allocateMmioAddress c
  | allocateMemAddress c | allocateKvmMemSlot size fixed => exact call_orderly (fun _ => take_answer_orderly h) hs
  | freeLegacyIrq irq => exact call_orderly (hfree (.legacyIrq irq)) hs
  | freeMsiIrq irq count => exact call_orderly (hfree (.msiIrq .genericMsi irq count)) hs
  | freePioAddress base size => exact call_orderly (hfree (.pioAddressRange base size)) hs
  | freeMmioAddress base size => exact call_orderly (hfree (.mmioAddressRange base size)) hs
  | freeMemAddress base size => exact call_orderly (hfree (.memAddressRange base size)) hs
  | freeKvmMemSlot slot => exact call_orderly (hfree (.kvmMemSlot slot)) hs
  | allocateDeviceResources requests shared => exact call_orderly (fun _ => allocateLoop_orderly h) hs
  | freeDeviceResources resources => exact call_orderly (fun _ => freeDeviceResources_orderly h) hs

theorem orderly_run {ops : List Op} {m0 : ResourceManager} (hinit : Initial checks l m0)
    (hrun : Run (Guarded checks l) m0 ops m) : Orderly l m :=
  hrun.invariant (I := Orderly l) (fun _ _ _ h hs => orderly_step h hs) (orderly_initial hinit)

end Runs

end ResourceManager
end Kata.Resources
