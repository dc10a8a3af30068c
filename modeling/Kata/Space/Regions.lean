import Kata.Allocator.Range
import Kata.Lib.Outcome
import Kata.Lib.Runs
import Mathlib.Data.List.Perm.Basic
import Mathlib.Data.List.Sort

/-!
# Kata.Space.Regions

The regions of a guest's physical address space (`dbs_address_space/src/address_space.rs`,
`region.rs`, `layout.rs`).

`from_regions` sorts the regions by base and compares neighbours only. That is enough unless a
region is followed by an empty one with the same base: the empty region is apart from both its
neighbours, and hides from the check that they intersect (`Hidden`). `pairwise_iff` is the fact
about one sorted list; `regions_sound_iff` takes it to `from_regions` and every sequence of
`insert_region` calls after it, which compare with all regions.

The order of regions with equal bases is that of `sort_unstable_by_key`, which is a parameter.
-/

namespace Kata.Space

open Allocator Lib

/-! ## Regions and layout -/

inductive AddressSpaceRegionType where
  | defaultMemory
  | deviceMemory
  | daxMemory
deriving DecidableEq, Repr

structure AddressSpaceRegion where
  ty : AddressSpaceRegionType
  base : U64
  size : U64
  hostNumaNodeId : Option UInt32
  protFlags : Int32
deriving DecidableEq

namespace AddressSpaceRegion

/-- `base.checked_add(size)` -/
def checkedEnd (r : AddressSpaceRegion) : Option Nat :=
  if r.base.val + r.size.val ≤ u64Max then some (r.base.val + r.size.val) else none

def intersectWith (r other : AddressSpaceRegion) : Bool :=
  match r.checkedEnd, other.checkedEnd with
  | some end1, some end2 => !(decide (end1 ≤ other.base.val) || decide (r.base.val ≥ end2))
  | _, _ => true

/-- The address is in the region. -/
def Has (r : AddressSpaceRegion) (addr : U64) : Prop :=
  r.base.val ≤ addr.val ∧ addr.val < r.base.val + r.size.val

instance (r : AddressSpaceRegion) (addr : U64) : Decidable (r.Has addr) := inferInstanceAs (Decidable (_ ∧ _))

end AddressSpaceRegion

structure AddressSpaceLayout where
  physEnd : U64
  memStart : U64
  memEnd : U64
deriving DecidableEq

def AddressSpaceLayout.isRegionValid (layout : AddressSpaceLayout) (region : AddressSpaceRegion) : Bool :=
  match region.checkedEnd with
  | none => false
  | some regionEnd =>
    match region.ty with
    | .defaultMemory => !(decide (region.base < layout.memStart) || decide (regionEnd > layout.memEnd.val))
    | .deviceMemory => !(decide (region.base < layout.memEnd) || decide (regionEnd > layout.physEnd.val))
    | .daxMemory => !(decide (region.base < layout.memEnd) || decide (regionEnd > layout.physEnd.val))

/-- `sort_unstable_by_key(|v| v.base)`: the order of equal bases is not known. -/
structure SortByBase where
  sort : List AddressSpaceRegion → List AddressSpaceRegion
  perm : ∀ regions, (sort regions).Perm regions
  sorted : ∀ regions, (sort regions).Pairwise fun a b => a.base ≤ b.base

/-! ## The address space -/

inductive RegionsPanic where
  | invalidRegion (region : AddressSpaceRegion)
  | intersect

inductive AddressSpaceError where
  | invalidAddressRange (start len : U64)
  | invalidRegionType

structure AddressSpaceBase where
  regions : List AddressSpaceRegion
  layout : AddressSpaceLayout

def neighboursIntersect : List AddressSpaceRegion → Bool
  | a :: b :: rest => b.intersectWith a || neighboursIntersect (b :: rest)
  | _ => false

namespace AddressSpaceBase

def fromRegions (S : SortByBase) (regions : List AddressSpaceRegion) (layout : AddressSpaceLayout) :
    Except RegionsPanic AddressSpaceBase :=
  let regions := S.sort regions
  match regions.find? fun region => !layout.isRegionValid region with
  | some region => .error (.invalidRegion region)
  | none => if neighboursIntersect regions then .error .intersect else .ok ⟨regions, layout⟩

def insertRegion (s : AddressSpaceBase) (region : AddressSpaceRegion) :
    Except AddressSpaceError Unit × AddressSpaceBase :=
  if !s.layout.isRegionValid region then (.error (.invalidAddressRange region.base region.size), s)
  else if s.regions.any fun r => r.intersectWith region then
    (.error (.invalidAddressRange region.base region.size), s)
  else (.ok (), { s with regions := s.regions ++ [region] })

section Queries

-- `checks` is the build setting `overflow-checks`
variable (checks : Bool) (addr : U64)

/-- The test of the queries; the end is only computed for an address from the base on. -/
def covers (region : AddressSpaceRegion) : Except Panic Bool :=
  if region.base ≤ addr then do return decide ((← addU64 checks region.base region.size) > addr.val)
  else .ok false

def isDaxRegion : List AddressSpaceRegion → Except Panic Bool
  | [] => .ok false
  | region :: rest => do
    if region.ty = .daxMemory then
      if ← covers checks addr region then return true else isDaxRegion rest
    else isDaxRegion rest

def protFlags : List AddressSpaceRegion → Except Panic (Except AddressSpaceError Int32)
  | [] => .ok (.error .invalidRegionType)
  | region :: rest => do
    if ← covers checks addr region then return .ok region.protFlags else protFlags rest

def numaNodeId : List AddressSpaceRegion → Except Panic (Option UInt32)
  | [] => .ok none
  | region :: rest => do
    if ← covers checks addr region then return region.hostNumaNodeId else numaNodeId rest

end Queries

end AddressSpaceBase

/-- The address space with hotplug, which swaps in a new base. -/
structure AddressSpace where
  state : AddressSpaceBase

namespace AddressSpace

def fromRegions (S : SortByBase) (regions : List AddressSpaceRegion) (layout : AddressSpaceLayout) :
    Except RegionsPanic AddressSpace := do
  return ⟨← AddressSpaceBase.fromRegions S regions layout⟩

def insertRegion (S : SortByBase) (s : AddressSpace) (region : AddressSpaceRegion) :
    Except RegionsPanic (Except AddressSpaceError Unit × AddressSpace) := do
  let base ← AddressSpaceBase.fromRegions S s.state.regions s.state.layout
  match base.insertRegion region with
  | (.error e, _) => return (.error e, s)
  | (.ok (), base) => return (.ok (), ⟨base⟩)

/-- A call of `insert_region` that returns. -/
def Step (S : SortByBase) (s : AddressSpace) (region : AddressSpaceRegion) (s' : AddressSpace) : Prop :=
  ∃ result, s.insertRegion S region = .ok (result, s')

end AddressSpace

/-! ## The property -/

/-- The region that an address belongs to. -/
def owner (regions : List AddressSpaceRegion) (addr : U64) : Option AddressSpaceRegion :=
  regions.find? fun region => decide (region.Has addr)

structure Sound (s : AddressSpaceBase) : Prop where
  valid : ∀ region ∈ s.regions, s.layout.isRegionValid region = true
  apart : s.regions.Pairwise fun a b => a.intersectWith b = false
  single : ∀ addr, s.regions.Pairwise fun a b => ¬ (a.Has addr ∧ b.Has addr)
  dax : ∀ checks addr, AddressSpaceBase.isDaxRegion checks addr s.regions =
    .ok ((owner s.regions addr).any fun region => decide (region.ty = .daxMemory))
  prot : ∀ checks addr, AddressSpaceBase.protFlags checks addr s.regions =
    .ok (match owner s.regions addr with
      | some region => .ok region.protFlags
      | none => .error .invalidRegionType)
  numa : ∀ checks addr, AddressSpaceBase.numaNodeId checks addr s.regions =
    .ok ((owner s.regions addr).bind fun region => region.hostNumaNodeId)

/-! ## The condition -/

/-- The checks of `from_regions` pass. -/
def Accepted (layout : AddressSpaceLayout) (regions : List AddressSpaceRegion) : Prop :=
  (∀ region ∈ regions, layout.isRegionValid region = true) ∧ neighboursIntersect regions = false

/-- An empty region stands between two that intersect, with the base of the first one. -/
def Hidden (regions : List AddressSpaceRegion) : Prop :=
  ∃ pre a e post b, regions = pre ++ a :: e :: post ∧ e.base = a.base ∧ e.size = 0 ∧ b ∈ post ∧
    a.intersectWith b = true

/-! ## Sorted lists -/

section Lists

variable {layout : AddressSpaceLayout} {regions : List AddressSpaceRegion} {a b : AddressSpaceRegion} {addr : U64}

/-- A valid region has an end. -/
theorem le_of_valid (h : layout.isRegionValid a = true) : a.base.val + a.size.val ≤ u64Max := by
  by_contra hgt
  rw [AddressSpaceLayout.isRegionValid, AddressSpaceRegion.checkedEnd, if_neg hgt] at h
  cases h

theorem intersectWith_iff (ha : a.base.val + a.size.val ≤ u64Max) (hb : b.base.val + b.size.val ≤ u64Max) :
    a.intersectWith b = true ↔
      b.base.val < a.base.val + a.size.val ∧ a.base.val < b.base.val + b.size.val := by
  simp only [AddressSpaceRegion.intersectWith, AddressSpaceRegion.checkedEnd, if_pos ha, if_pos hb,
    Bool.not_eq_true', Bool.or_eq_false_iff, decide_eq_false_iff_not, not_le, ge_iff_le]

theorem intersectWith_comm : a.intersectWith b = b.intersectWith a := by
  unfold AddressSpaceRegion.intersectWith
  cases a.checkedEnd with
  | none => cases b.checkedEnd <;> rfl
  | some end1 =>
    cases b.checkedEnd with
    | none => rfl
    | some end2 => simp only [Bool.or_comm, ge_iff_le]

theorem intersectWith_of_has (ha : layout.isRegionValid a = true) (hb : layout.isRegionValid b = true)
    (h : a.Has addr) (h' : b.Has addr) : a.intersectWith b = true := by
  rw [intersectWith_iff (le_of_valid ha) (le_of_valid hb)]
  obtain ⟨h1, h2⟩ := h
  obtain ⟨h3, h4⟩ := h'
  omega

theorem neighbours_of_pairwise (h : regions.Pairwise fun a b => a.intersectWith b = false) :
    neighboursIntersect regions = false := by
  induction regions with
  | nil => rfl
  | cons a rest ih =>
    cases rest with
    | nil => rfl
    | cons b rest =>
      obtain ⟨hab, hrest⟩ := List.pairwise_cons.mp h
      rw [neighboursIntersect, ih hrest, intersectWith_comm, hab b (.head _)]
      rfl

/-- Sorted neighbours that do not intersect: either the second one begins behind the first, or it is
empty. -/
theorem behind_or_empty (ha : layout.isRegionValid a = true) (hb : layout.isRegionValid b = true)
    (hle : a.base ≤ b.base) (h : b.intersectWith a = false) :
    a.base.val + a.size.val ≤ b.base.val ∨ b.base = a.base ∧ b.size = 0 := by
  have hle : a.base.val ≤ b.base.val := hle
  rw [← Bool.not_eq_true, intersectWith_iff (le_of_valid hb) (le_of_valid ha)] at h
  by_cases hbehind : a.base.val + a.size.val ≤ b.base.val
  · exact .inl hbehind
  · refine .inr ⟨Fin.ext (by omega), Fin.ext ?_⟩
    have hsize : b.size.val = 0 := by omega
    exact hsize

theorem hidden_of_not_pairwise (hs : regions.Pairwise fun a b => a.base ≤ b.base)
    (hacc : Accepted layout regions) (h : ¬ regions.Pairwise fun a b => a.intersectWith b = false) :
    Hidden regions := by
  induction regions with
  | nil => exact absurd .nil h
  | cons a rest ih =>
    obtain ⟨hvalid, hn⟩ := hacc
    obtain ⟨hmin, hs'⟩ := List.pairwise_cons.mp hs
    have hva := hvalid a (.head _)
    have hvrest : ∀ region ∈ rest, layout.isRegionValid region = true :=
      fun region hmem => hvalid region (.tail _ hmem)
    cases rest with
    | nil => exact absurd (List.pairwise_singleton _ _) h
    | cons e tail =>
      rw [neighboursIntersect, Bool.or_eq_false_iff] at hn
      by_cases hrest : (e :: tail).Pairwise fun a b => a.intersectWith b = false
      · -- the first region intersects a later one, which is not its neighbour
        have hex : ∃ b ∈ e :: tail, a.intersectWith b = true := by
          by_contra hno
          refine h (List.pairwise_cons.mpr ⟨?_, hrest⟩)
          intro b hb
          exact Bool.eq_false_of_not_eq_true fun hab => hno ⟨b, hb, hab⟩
        obtain ⟨b, hb, hab⟩ := hex
        have hbtail : b ∈ tail := by
          cases hb with
          | head =>
            rw [intersectWith_comm, hn.1] at hab
            cases hab
          | tail _ hb => exact hb
        have heb : e.base.val ≤ b.base.val := (List.pairwise_cons.mp hs').1 b hbtail
        rcases behind_or_empty hva (hvrest e (.head _)) (hmin e (.head _)) hn.1 with hbehind | ⟨hbase, hsize⟩
        · rw [intersectWith_iff (le_of_valid hva) (le_of_valid (hvrest b hb))] at hab
          omega
        · exact ⟨[], a, e, tail, b, rfl, hbase, hsize, hbtail, hab⟩
      · obtain ⟨pre, a', e', post, b, heq, hrest'⟩ := ih hs' ⟨hvrest, hn.2⟩ hrest
        exact ⟨a :: pre, a', e', post, b, by rw [heq]; rfl, hrest'⟩

theorem not_pairwise_of_hidden (h : Hidden regions) : ¬ regions.Pairwise fun a b => a.intersectWith b = false := by
  obtain ⟨pre, a, e, post, b, rfl, _, _, hb, hab⟩ := h
  intro hp
  have hpost := (List.pairwise_cons.mp (List.pairwise_append.mp hp).2.1).1 b (.tail _ hb)
  rw [hab] at hpost
  cases hpost

/-- Comparing neighbours is enough, unless something is hidden. -/
theorem pairwise_iff (hs : regions.Pairwise fun a b => a.base ≤ b.base) (hacc : Accepted layout regions) :
    (regions.Pairwise fun a b => a.intersectWith b = false) ↔ ¬ Hidden regions := by
  constructor
  · exact fun hp hh => not_pairwise_of_hidden hh hp
  · intro hh
    by_contra hp
    exact hh (hidden_of_not_pairwise hs hacc hp)

/-! ## Queries -/

theorem covers_eq (checks : Bool) (h : layout.isRegionValid a = true) :
    AddressSpaceBase.covers checks addr a = .ok (decide (a.Has addr)) := by
  unfold AddressSpaceBase.covers
  split
  · rename_i hle
    rw [addU64_of_le (le_of_valid h), ok_bind]
    refine congrArg Except.ok (decide_eq_decide.mpr ?_)
    exact ⟨fun hlt => ⟨hle, hlt⟩, fun hh => hh.2⟩
  · rename_i hgt
    refine congrArg Except.ok (decide_eq_false fun hh => hgt hh.1).symm

theorem owner_cons : owner (a :: regions) addr = if a.Has addr then some a else owner regions addr := by
  unfold owner
  by_cases h : a.Has addr
  · rw [List.find?_cons_of_pos (by simp [h]), if_pos h]
  · rw [List.find?_cons_of_neg (by simp [h]), if_neg h]

theorem protFlags_eq (checks : Bool) (h : ∀ region ∈ regions, layout.isRegionValid region = true) :
    AddressSpaceBase.protFlags checks addr regions =
      .ok (match owner regions addr with
        | some region => .ok region.protFlags
        | none => .error .invalidRegionType) := by
  induction regions with
  | nil => rfl
  | cons a rest ih =>
    rw [AddressSpaceBase.protFlags, covers_eq checks (h a (.head _)), ok_bind, owner_cons]
    by_cases hh : a.Has addr
    · simp [hh]
    · simp only [hh, decide_false, Bool.false_eq_true, if_false]
      exact ih fun region hmem => h region (.tail _ hmem)

theorem numaNodeId_eq (checks : Bool) (h : ∀ region ∈ regions, layout.isRegionValid region = true) :
    AddressSpaceBase.numaNodeId checks addr regions =
      .ok ((owner regions addr).bind fun region => region.hostNumaNodeId) := by
  induction regions with
  | nil => rfl
  | cons a rest ih =>
    rw [AddressSpaceBase.numaNodeId, covers_eq checks (h a (.head _)), ok_bind, owner_cons]
    by_cases hh : a.Has addr
    · simp [hh]
    · simp only [hh, decide_false, Bool.false_eq_true, if_false]
      exact ih fun region hmem => h region (.tail _ hmem)

/-- Only regions for DAX are looked at, so the answer is that of the owner only if no other region
has the address. -/
theorem isDaxRegion_eq (checks : Bool) (h : ∀ region ∈ regions, layout.isRegionValid region = true)
    (hsingle : regions.Pairwise fun a b => ¬ (a.Has addr ∧ b.Has addr)) :
    AddressSpaceBase.isDaxRegion checks addr regions =
      .ok ((owner regions addr).any fun region => decide (region.ty = .daxMemory)) := by
  induction regions with
  | nil => rfl
  | cons a rest ih =>
    obtain ⟨hhead, hrest⟩ := List.pairwise_cons.mp hsingle
    have hrec := ih (fun region hmem => h region (.tail _ hmem)) hrest
    rw [AddressSpaceBase.isDaxRegion, covers_eq checks (h a (.head _)), owner_cons]
    by_cases hh : a.Has addr
    · -- no other region has the address
      have hnone : owner rest addr = none := by
        rw [owner, List.find?_eq_none]
        intro b hb
        rw [decide_eq_true_iff]
        exact fun hb' => hhead b hb ⟨hh, hb'⟩
      rw [hnone] at hrec
      by_cases hty : a.ty = .daxMemory
      · simp [hh, hty]
      · simp only [hty, hh, if_false, if_true, hrec]
        simp [hty]
    · by_cases hty : a.ty = .daxMemory
      · simp only [hh, hty, if_true, decide_false, ok_bind, Bool.false_eq_true, if_false]
        exact hrec
      · simp only [hh, hty, if_false]
        exact hrec

end Lists

/-! ## Runs -/

variable {S : SortByBase} {layout : AddressSpaceLayout} {regions : List AddressSpaceRegion}
  {s s' : AddressSpaceBase}

theorem single_of_apart (hvalid : ∀ region ∈ regions, layout.isRegionValid region = true)
    (hp : regions.Pairwise fun a b => a.intersectWith b = false) (addr : U64) :
    regions.Pairwise fun a b => ¬ (a.Has addr ∧ b.Has addr) := by
  refine List.Pairwise.imp_of_mem ?_ hp
  rintro a b ha hb hab ⟨hha, hhb⟩
  rw [intersectWith_of_has (hvalid a ha) (hvalid b hb) hha hhb] at hab
  cases hab

theorem sound_of_apart (hvalid : ∀ region ∈ s.regions, s.layout.isRegionValid region = true)
    (hp : s.regions.Pairwise fun a b => a.intersectWith b = false) : Sound s where
  valid := hvalid
  apart := hp
  single := single_of_apart hvalid hp
  dax checks addr := isDaxRegion_eq checks hvalid (single_of_apart hvalid hp addr)
  prot checks _ := protFlags_eq checks hvalid
  numa checks _ := numaNodeId_eq checks hvalid

theorem fromRegions_eq_ok :
    AddressSpaceBase.fromRegions S regions layout = .ok s ↔
      Accepted layout (S.sort regions) ∧ s = ⟨S.sort regions, layout⟩ := by
  simp only [AddressSpaceBase.fromRegions, Accepted]
  cases hf : (S.sort regions).find? fun region => !layout.isRegionValid region with
  | some region =>
    have hbad := List.find?_some hf
    have hmem := List.mem_of_find?_eq_some hf
    constructor
    · intro h
      cases h
    · rintro ⟨⟨hvalid, _⟩, _⟩
      rw [hvalid region hmem] at hbad
      cases hbad
  | none =>
    have hvalid : ∀ region ∈ S.sort regions, layout.isRegionValid region = true := by
      intro region hmem
      simpa using List.find?_eq_none.mp hf region hmem
    cases hn : neighboursIntersect (S.sort regions) with
    | true => simp
    | false =>
      simp only [Bool.false_eq_true, if_false, Except.ok.injEq, and_true]
      exact ⟨fun h => ⟨hvalid, h.symm⟩, fun h => h.2.symm⟩

theorem pairwise_sort_iff : ((S.sort regions).Pairwise fun a b => a.intersectWith b = false) ↔
    regions.Pairwise fun a b => a.intersectWith b = false :=
  (S.perm regions).pairwise_iff fun {a b} h => by rw [intersectWith_comm]; exact h

/-- The rebuild before an insertion changes the order only. -/
theorem Sound.fromRegions (h : Sound s) :
    AddressSpaceBase.fromRegions S s.regions s.layout = .ok ⟨S.sort s.regions, s.layout⟩ := by
  refine fromRegions_eq_ok.mpr ⟨⟨?_, ?_⟩, rfl⟩
  · intro region hmem
    exact h.valid region ((S.perm _).mem_iff.mp hmem)
  · exact neighbours_of_pairwise (pairwise_sort_iff.mpr h.apart)

theorem Sound.sort (h : Sound s) : Sound ⟨S.sort s.regions, s.layout⟩ := by
  refine sound_of_apart ?_ (pairwise_sort_iff.mpr h.apart)
  intro region hmem
  exact h.valid region ((S.perm _).mem_iff.mp hmem)

theorem Sound.insertRegion (h : Sound s) (region : AddressSpaceRegion) : Sound (s.insertRegion region).2 := by
  unfold AddressSpaceBase.insertRegion
  split
  · exact h
  · rename_i hv
    split
    · exact h
    · rename_i hi
      have hvalid : s.layout.isRegionValid region = true := by simpa using hv
      refine sound_of_apart ?_ ?_
      · intro r hmem
        rcases List.mem_append.mp hmem with hmem | hmem
        · exact h.valid r hmem
        · rw [List.mem_singleton.mp hmem]
          exact hvalid
      · refine List.pairwise_append.mpr ⟨h.apart, List.pairwise_singleton _ _, ?_⟩
        intro r hr b hb
        rw [List.mem_singleton.mp hb]
        refine Bool.eq_false_of_not_eq_true fun hint => hi ?_
        exact List.any_eq_true.mpr ⟨r, hr, hint⟩

theorem sound_step {a a' : AddressSpace} {region : AddressSpaceRegion} (h : Sound a.state)
    (hs : AddressSpace.Step S a region a') : Sound a'.state := by
  obtain ⟨result, hs⟩ := hs
  rw [AddressSpace.insertRegion, h.fromRegions, ok_bind] at hs
  have hins := (h.sort (S := S)).insertRegion region
  cases hb : AddressSpaceBase.insertRegion ⟨S.sort a.state.regions, a.state.layout⟩ region with
  | mk result' base =>
    rw [hb] at hs hins
    cases result' with
    | error e =>
      cases hs
      exact h
    | ok u =>
      cases hs
      exact hins

/-- A sound address space answers every insertion; none panics. -/
theorem Sound.insertRegion_returns {a : AddressSpace} (h : Sound a.state) (region : AddressSpaceRegion) :
    ∃ a', AddressSpace.Step S a region a' := by
  unfold AddressSpace.Step
  rw [AddressSpace.insertRegion, h.fromRegions, ok_bind]
  rcases AddressSpaceBase.insertRegion ⟨S.sort a.state.regions, a.state.layout⟩ region with ⟨e | _, base⟩
  · exact ⟨a, .error e, rfl⟩
  · exact ⟨⟨base⟩, .ok (), rfl⟩

/-- No sequence of insertions panics, and the regions stay apart. -/
theorem Sound.insertions_return {a : AddressSpace} (h : Sound a.state) (regions : List AddressSpaceRegion) :
    ∃ a', Run (AddressSpace.Step S) a regions a' ∧ Sound a'.state := by
  induction regions generalizing a with
  | nil => exact ⟨a, .nil, h⟩
  | cons region regions ih =>
    obtain ⟨a1, hstep⟩ := h.insertRegion_returns region
    obtain ⟨a', hrun, hsound⟩ := ih (sound_step h hstep)
    exact ⟨a', .cons hstep hrun, hsound⟩

/-- `from_regions` and the insertions after it keep the regions apart, and regions that share an
address are refused, if and only if nothing is hidden in the sorted list. -/
theorem regions_sound_iff (S : SortByBase) (regions : List AddressSpaceRegion) (layout : AddressSpaceLayout) :
    ((∀ a ops a', AddressSpace.fromRegions S regions layout = .ok a → Run (AddressSpace.Step S) a ops a' →
        Sound a'.state) ∧
      ((∃ addr, ¬ regions.Pairwise fun r r' => ¬ (r.Has addr ∧ r'.Has addr)) →
        ∃ panic, AddressSpace.fromRegions S regions layout = .error panic)) ↔
    (Accepted layout (S.sort regions) → ¬ Hidden (S.sort regions)) := by
  have hmk : ∀ {a}, AddressSpace.fromRegions S regions layout = .ok a ↔
      Accepted layout (S.sort regions) ∧ a = ⟨⟨S.sort regions, layout⟩⟩ := by
    intro a
    rw [AddressSpace.fromRegions, bind_eq_ok]
    constructor
    · rintro ⟨s, hs, heq⟩
      cases heq
      obtain ⟨hacc, rfl⟩ := fromRegions_eq_ok.mp hs
      exact ⟨hacc, rfl⟩
    · rintro ⟨hacc, rfl⟩
      exact ⟨_, fromRegions_eq_ok.mpr ⟨hacc, rfl⟩, rfl⟩
  constructor
  · rintro ⟨hrun, _⟩ hacc
    have hsound := hrun _ [] _ (hmk.mpr ⟨hacc, rfl⟩) .nil
    exact (pairwise_iff (S.sorted regions) hacc).mp hsound.apart
  · intro hcond
    have hsound : ∀ {a}, AddressSpace.fromRegions S regions layout = .ok a → Sound a.state := by
      intro a ha
      obtain ⟨hacc, rfl⟩ := hmk.mp ha
      exact sound_of_apart hacc.1 ((pairwise_iff (S.sorted regions) hacc).mpr (hcond hacc))
    refine ⟨?_, ?_⟩
    · intro a ops a' ha hrun
      exact hrun.invariant (I := fun a => Sound a.state) (fun _ _ _ h hs => sound_step h hs) (hsound ha)
    · rintro ⟨addr, hshare⟩
      cases ha : AddressSpace.fromRegions S regions layout with
      | error panic => exact ⟨panic, rfl⟩
      | ok a =>
        have hsingle := (hsound ha).single addr
        obtain ⟨_, rfl⟩ := hmk.mp ha
        have hperm := ((S.perm regions).pairwise_iff fun {a b} h => by rw [and_comm]; exact h).mp hsingle
        exact absurd hperm hshare

/-! ## A hidden region -/

/-- A sort that keeps the order of equal bases. -/
def stableSort : SortByBase where
  sort := List.insertionSort fun a b => a.base ≤ b.base
  perm := List.perm_insertionSort _
  sorted := List.pairwise_insertionSort (fun a b : AddressSpaceRegion => a.base ≤ b.base)

def memory (base size : U64) (numa : UInt32) : AddressSpaceRegion :=
  { ty := .defaultMemory, base := base, size := size, hostNumaNodeId := some numa, protFlags := 3 }

/-- The same memory twice, with an empty region between. -/
theorem hidden_accepted :
    ∃ s, AddressSpaceBase.fromRegions stableSort
        [memory 0x1000 0x1000 0, memory 0x1000 0 1, memory 0x1000 0x1000 2] ⟨0x10000, 0, 0x8000⟩ = .ok s ∧
      memory 0x1000 0x1000 0 ∈ s.regions ∧ memory 0x1000 0x1000 2 ∈ s.regions ∧
      (memory 0x1000 0x1000 0).Has 0x1800 ∧ (memory 0x1000 0x1000 2).Has 0x1800 :=
  ⟨_, rfl, by decide, by decide, by decide, by decide⟩

theorem insertions_return_twice : ∃ a', Run (AddressSpace.Step stableSort) ⟨⟨[], ⟨0x10000, 0, 0x8000⟩⟩⟩
    [memory 0x1000 0x1000 0, memory 0x1800 0x1000 0] a' ∧ Sound a'.state :=
  Sound.insertions_return (sound_of_apart (by simp) .nil) _

end Kata.Space
