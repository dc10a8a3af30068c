import Kata.VirtioMem.Mapping

/-!
# Kata.VirtioMem.Backing

The usable memory of a virtio-mem device with several map regions, and what
`virtio_mem_resize_usable_region` does to it.

The map regions are mapped from the first one on, as far as the usable region goes, each one at its
place in the region that was created for it, and the created regions do not meet (`Backing`).
`Resizes` lists what a resize can do, with the region that it passes to `create_region`, and
`resizes_backing_iff` says when it keeps the usable memory backed.
-/

namespace Kata.VirtioMem

open Lib

/-! ## The regions that are created -/

/-- `base` is the address of the device when the region was created, `first` its first map region. -/
structure Region where
  base : Nat
  first : Nat
  guestAddr : Nat
  len : Nat
  hostAddr : Nat

def Region.Apart (r r' : Region) : Prop :=
  r.guestAddr + r.len ≤ r'.guestAddr ∨ r'.guestAddr + r'.len ≤ r.guestAddr

/-- What `create_region` is called with, and the map regions that it is for. -/
structure Plan where
  first : Nat
  last : Nat
  slot : UInt32
  guestAddr : Nat
  len : Nat

namespace Mem

variable (checks : Bool) (factory : Factory) (mem : Mem)

/-- The call that `mapNew` makes, if it makes one. -/
def plan (newsize : Nat) : Except Panic (Option Plan) := do
  let firstIndex ← mem.regionIndex checks mem.config.usableRegionSize
  let lastIndex ← mem.regionIndex checks newsize
  let stop ← add checks lastIndex 1
  match (List.range' firstIndex (stop - firstIndex)).findSome? (unmapped mem.mapRegions) with
  | none => return none
  | some (firstIndex, slot) =>
    let guestAddr ← add checks mem.config.addr (firstIndex <<< mapRegionShift)
    let len ← add checks ((lastIndex - firstIndex) <<< mapRegionShift) (← mem.lastLen checks lastIndex)
    return some ⟨firstIndex, lastIndex, slot, guestAddr, len⟩

/-- The rest of `mapNew`. -/
def carryOut : Option Plan → Except Panic (Option (List MapRegion))
  | none => .ok (some mem.mapRegions)
  | some p =>
    match factory p.guestAddr p.len p.slot with
    | none => .ok none
    | some hostAddr => do
      return some (← mapFrom checks mem.mapRegions p.first hostAddr p.guestAddr (p.last - p.first + 1))

theorem mapNew_eq (newsize : Nat) :
    mem.mapNew checks factory newsize = mem.plan checks newsize >>= mem.carryOut checks factory := by
  unfold mapNew plan
  simp only [bind_assoc]
  refine bind_congr fun first => bind_congr fun last => bind_congr fun stop => ?_
  cases (List.range' first (stop - first)).findSome? (unmapped mem.mapRegions) with
  | none => rfl
  | some found => simp only [bind_assoc, pure_bind]; rfl

/-- The region of a call that has succeeded. -/
def regionOf (p : Plan) (hostAddr : Nat) : Region := ⟨mem.config.addr, p.first, p.guestAddr, p.len, hostAddr⟩

/-- The usable region is to become larger. -/
def Wants (n : Nat) : Prop := newsize checks mem.config mem.alignment = .ok n ∧ mem.config.usableRegionSize < n

/-- The region that `resizeUsableRegion` creates. -/
def createdBy : List Region :=
  match newsize checks mem.config mem.alignment with
  | .error _ => []
  | .ok n =>
    if mem.config.usableRegionSize < n then
      match mem.plan checks n with
      | .ok (some p) => ((factory p.guestAddr p.len p.slot).map (mem.regionOf p)).toList
      | _ => []
    else []

/-- What `resizeUsableRegion` does to a device with several map regions, with the region that it
creates. -/
inductive Resizes : Except Error Unit → Mem → List Region → Prop where
  | keep (h : ∀ n, ¬ mem.Wants checks n) : Resizes (.ok ()) mem []
  | extend {n : Nat} (h : mem.Wants checks n) (hplan : mem.plan checks n = .ok none) :
      Resizes (.ok ()) { mem with config := { mem.config with usableRegionSize := n } } []
  | fail {n : Nat} {p : Plan} (h : mem.Wants checks n) (hplan : mem.plan checks n = .ok (some p))
      (hcreate : factory p.guestAddr p.len p.slot = none) : Resizes (.error .createRegion) mem []
  | map {n hostAddr : Nat} {p : Plan} {regions : List MapRegion} (h : mem.Wants checks n)
      (hplan : mem.plan checks n = .ok (some p)) (hcreate : factory p.guestAddr p.len p.slot = some hostAddr)
      (hmap : mapFrom checks mem.mapRegions p.first hostAddr p.guestAddr (p.last - p.first + 1) = .ok regions) :
      Resizes (.ok ()) { mem with mapRegions := regions, config := { mem.config with usableRegionSize := n } }
        [mem.regionOf p hostAddr]

variable {checks factory mem}

theorem resizes_of_ok {res : Except Error Unit} {mem' : Mem} (hmulti : mem.multiRegion = true)
    (h : mem.resizeUsableRegion checks factory false = .ok (res, mem')) :
    mem.Resizes checks factory res mem' (mem.createdBy checks factory) := by
  unfold resizeUsableRegion at h
  obtain ⟨n, hn, h1⟩ := bind_eq_ok.mp h
  obtain ⟨grown, hgrown, h2⟩ := bind_eq_ok.mp h1
  by_cases hgt : mem.config.usableRegionSize < n
  · have hwants : mem.Wants checks n := ⟨hn, hgt⟩
    have hnot : ¬ (n < mem.config.usableRegionSize ∧ (!false) = true) := fun hlt => Nat.lt_asymm hgt hlt.1
    rw [growRegions, if_pos ⟨hgt, hmulti⟩, mapNew_eq] at hgrown
    obtain ⟨p, hplan, hcarry⟩ := bind_eq_ok.mp hgrown
    have hcreated : mem.createdBy checks factory = match p with
        | some p => ((factory p.guestAddr p.len p.slot).map (mem.regionOf p)).toList
        | none => [] := by
      simp only [createdBy, hn, if_pos hgt, hplan]
      cases p <;> rfl
    cases p with
    | none =>
      cases hcarry
      simp only [if_neg hnot] at h2
      cases h2
      rw [hcreated]
      exact .extend hwants hplan
    | some p =>
      simp only [carryOut] at hcarry
      cases hcreate : factory p.guestAddr p.len p.slot with
      | none =>
        rw [hcreate] at hcarry
        cases hcarry
        cases h2
        simp only [hcreated, hcreate]
        exact .fail hwants hplan hcreate
      | some hostAddr =>
        simp only [hcreate] at hcarry
        obtain ⟨regions, hmap, hsome⟩ := bind_eq_ok.mp hcarry
        cases hsome
        simp only [if_neg hnot] at h2
        cases h2
        simp only [hcreated, hcreate]
        exact .map hwants hplan hcreate hmap
  · have hno : ∀ k, ¬ mem.Wants checks k := by
      rintro k ⟨hk, hlt⟩
      rw [hn] at hk
      cases hk
      exact hgt hlt
    have hcreated : mem.createdBy checks factory = [] := by
      simp only [createdBy, hn, if_neg hgt]
    rw [growRegions, if_neg fun h => hgt h.1] at hgrown
    cases hgrown
    rw [hcreated]
    simp only at h2
    split at h2
    · cases h2
      exact .keep hno
    · rename_i hnot
      have heq : n = mem.config.usableRegionSize := by
        by_contra hne
        exact hnot ⟨by omega, rfl⟩
      cases h2
      rw [heq]
      exact .keep hno

end Mem

/-! ## Map regions that are mapped from the first one on -/

def IsMapped (regions : List MapRegion) (i : Nat) : Prop := ∃ p, mappedAt regions i = some (some p)

/-- The first `m` map regions are mapped, and no others. -/
def MappedUpTo (regions : List MapRegion) (m : Nat) : Prop := ∀ i, IsMapped regions i ↔ i < m

section Regions

variable {checks : Bool} {regions regions' : List MapRegion} {m i : Nat}

theorem IsMapped.lt_length (h : IsMapped regions i) : i < regions.length := by
  obtain ⟨p, hp⟩ := h
  by_contra hge
  rw [mappedAt, List.getElem?_eq_none (Nat.le_of_not_lt hge)] at hp
  cases hp

theorem isMapped_iff (region : MapRegion) (h : regions[i]? = some region) :
    IsMapped regions i ↔ region.mapped.isSome = true := by
  rw [IsMapped, mappedAt, h, Option.isSome_iff_exists]
  simp

theorem unmapped_of_isMapped (h : IsMapped regions i) : Mem.unmapped regions i = none := by
  obtain ⟨region, hregion⟩ : ∃ region, regions[i]? = some region := ⟨_, List.getElem?_eq_getElem h.lt_length⟩
  have hsome := (isMapped_iff region hregion).mp h
  simp only [Mem.unmapped, hregion]
  cases hm : region.mapped with
  | none =>
    rw [hm] at hsome
    cases hsome
  | some p => rfl

theorem unmapped_of_not_isMapped (hlt : i < regions.length) (h : ¬ IsMapped regions i) :
    ∃ slot, Mem.unmapped regions i = some (i, slot) := by
  have hregion : regions[i]? = some regions[i] := List.getElem?_eq_getElem hlt
  have hnone := fun hsome => h ((isMapped_iff _ hregion).mpr hsome)
  simp only [Mem.unmapped, hregion]
  cases hm : regions[i].mapped with
  | none => exact ⟨_, rfl⟩
  | some p =>
    rw [hm] at hnone
    exact absurd rfl hnone

/-- The search for a map region that is not mapped. -/
theorem findSome?_unmapped_none {first k : Nat} (hm : MappedUpTo regions m) (hk : first + k ≤ m) :
    (List.range' first k).findSome? (Mem.unmapped regions) = none := by
  rw [List.findSome?_eq_none_iff]
  intro i hi
  have hlt := (List.mem_range'_1.mp hi).2
  exact unmapped_of_isMapped ((hm i).mpr (by omega))

theorem findSome?_unmapped_some {first k : Nat} (hm : MappedUpTo regions m) (hlen : m < regions.length)
    (hfirst : first ≤ m) (hk : m < first + k) :
    ∃ slot, (List.range' first k).findSome? (Mem.unmapped regions) = some (m, slot) := by
  induction k generalizing first with
  | zero => omega
  | succ k ih =>
    rw [List.range'_succ, List.findSome?_cons]
    rcases Nat.lt_or_ge first m with hlt | hge
    · rw [unmapped_of_isMapped ((hm first).mpr hlt)]
      exact ih hlt (by omega)
    · have heq : first = m := Nat.le_antisymm hfirst hge
      subst heq
      obtain ⟨slot, hslot⟩ := unmapped_of_not_isMapped hlen fun h => Nat.lt_irrefl _ ((hm first).mp h)
      rw [hslot]
      exact ⟨slot, rfl⟩

/-- The loop of `mapFrom`: its map regions get the addresses one after another, the others are left. -/
theorem mapFrom_at {index hostAddr guestAddr n : Nat} (hhost : hostAddr < 2 ^ 64) (hguest : guestAddr < 2 ^ 64)
    (h : Mem.mapFrom checks regions index hostAddr guestAddr n = .ok regions') (i : Nat) :
    mappedAt regions' i = if index ≤ i ∧ i < index + n then
        some (some ((hostAddr + (i - index) * mapRegionSize) % 2 ^ 64,
          (guestAddr + (i - index) * mapRegionSize) % 2 ^ 64))
      else mappedAt regions i := by
  induction n generalizing regions index hostAddr guestAddr with
  | zero =>
    cases h
    rw [if_neg (by omega)]
  | succ n ih =>
    unfold Mem.mapFrom at h
    split at h
    · cases h
    · rename_i region hregion
      obtain ⟨hostAddr', hhost', h1⟩ := bind_eq_ok.mp h
      obtain ⟨guestAddr', hguest', h2⟩ := bind_eq_ok.mp h1
      have heqh := (U64.add_eq_ok_iff.mp hhost').2
      have heqg := (U64.add_eq_ok_iff.mp hguest').2
      have hrest := ih (by omega) (by omega) h2
      rw [hrest]
      by_cases hi : i = index
      · subst hi
        rw [if_neg (by omega), if_pos (by omega), mappedAt,
          List.getElem?_set_self (List.getElem?_eq_some_iff.mp hregion).1, Nat.sub_self, Nat.zero_mul,
          Nat.add_zero, Nat.add_zero, Nat.mod_eq_of_lt hhost, Nat.mod_eq_of_lt hguest]
        rfl
      · by_cases hin : index + 1 ≤ i ∧ i < index + 1 + n
        · have hsub : i - index = i - (index + 1) + 1 := by omega
          rw [if_pos hin, if_pos (by omega), hsub, Nat.succ_mul, heqh, heqg]
          simp only [Option.some.injEq, Prod.mk.injEq]
          omega
        · rw [if_neg hin, if_neg (by omega), mappedAt, List.getElem?_set_ne (Ne.symm hi), mappedAt]

theorem length_mapFrom {index hostAddr guestAddr n : Nat}
    (h : Mem.mapFrom checks regions index hostAddr guestAddr n = .ok regions') :
    regions'.length = regions.length := by
  induction n generalizing regions index hostAddr guestAddr with
  | zero =>
    cases h
    rfl
  | succ n ih =>
    unfold Mem.mapFrom at h
    split at h
    · cases h
    · obtain ⟨hostAddr', _, h1⟩ := bind_eq_ok.mp h
      obtain ⟨guestAddr', _, h2⟩ := bind_eq_ok.mp h1
      rw [ih h2, List.length_set]

end Regions

/-! ## What is backed -/

/-- What the usable memory needs. Addresses are those of 64 bits. -/
structure Backing (mem : Mem) (created : List Region) : Prop where
  mapped : ∃ m, MappedUpTo mem.mapRegions m
  backed : ∀ offset < mem.config.usableRegionSize, IsMapped mem.mapRegions (offset / mapRegionSize)
  placed : ∀ i hostAddr guestAddr, mappedAt mem.mapRegions i = some (some (hostAddr, guestAddr)) →
    ∃ r ∈ created, r.first ≤ i ∧ (i - r.first) * mapRegionSize < r.len ∧
      hostAddr = (r.hostAddr + (i - r.first) * mapRegionSize) % 2 ^ 64 ∧
      guestAddr = (r.guestAddr + (i - r.first) * mapRegionSize) % 2 ^ 64
  apart : created.Pairwise Region.Apart
  within : ∀ r ∈ created, r.first * mapRegionSize + r.len ≤ mem.config.regionSize

/-- What holds besides, after calls of any kind: the created regions belong to map regions that are
mapped. -/
structure Settled (mem : Mem) (created : List Region) : Prop where
  sound : mem.Sound
  multi : mem.multiRegion = true
  slots : mem.mapRegions = [] ∨ mem.mapRegions.length = mem.slotNum
  below : ∀ m, MappedUpTo mem.mapRegions m → ∀ r ∈ created, r.first * mapRegionSize + r.len ≤ m * mapRegionSize
  based : ∀ r ∈ created, r.guestAddr = (r.base + r.first * mapRegionSize) % 2 ^ 64

theorem mapRegionSize_eq : mapRegionSize = 2147483648 := by decide

theorem lt_getMapRegionsNum {i size : Nat} : i < getMapRegionsNum size ↔ i * mapRegionSize < size := by
  rw [Mem.getMapRegionsNum_eq, mapRegionSize_eq]
  split <;> omega

/-- Regions at different places of the same device do not meet, also where the device wraps around
the address space. -/
theorem apart_of_base {r r' : Region} {size : Nat} (hbase : r'.base = r.base)
    (hr : r.guestAddr = (r.base + r.first * mapRegionSize) % 2 ^ 64)
    (hr' : r'.guestAddr = (r'.base + r'.first * mapRegionSize) % 2 ^ 64)
    (hbelow : r'.first * mapRegionSize + r'.len ≤ r.first * mapRegionSize)
    (hin : r.first * mapRegionSize + r.len ≤ size) (hsize : size < 2 ^ 64) : r'.Apart r := by
  rw [hbase] at hr'
  unfold Region.Apart
  omega

namespace Mem

variable {checks : Bool} {factory : Factory} {mem mem' : Mem} {created new : List Region} {n m : Nat}

/-- The last map region for a size. -/
def lastFor (mem : Mem) (size : Nat) : Nat := min (size / mapRegionSize) (mem.mapRegions.length - 1)

theorem regionIndex_eq (hpos : 0 < mem.mapRegions.length) (size : Nat) :
    mem.regionIndex checks size = .ok (mem.lastFor size) := by
  rw [regionIndex, shiftRight_mapRegionShift, lastFor]
  split
  · rename_i hge
    rw [sub, U64.sub_of_le hpos, Nat.min_eq_right (by omega)]
  · rename_i hlt
    rw [Nat.min_eq_left (by omega)]

/-- The search starts at a map region up to which all are mapped. -/
theorem lastFor_usable_le (hm : MappedUpTo mem.mapRegions m)
    (hbacked : ∀ offset < mem.config.usableRegionSize, IsMapped mem.mapRegions (offset / mapRegionSize)) :
    mem.lastFor mem.config.usableRegionSize ≤ m := by
  unfold lastFor
  by_contra hgt
  have hin : m * mapRegionSize < mem.config.usableRegionSize := by
    rw [mapRegionSize_eq] at *
    omega
  have hlt := (hm _).mp (hbacked _ hin)
  rw [Nat.mul_div_cancel _ mapRegionSize_pos] at hlt
  exact Nat.lt_irrefl _ hlt

theorem plan_cases {o : Option Plan} (hs : Settled mem created) (hne : mem.mapRegions ≠ [])
    (hm : MappedUpTo mem.mapRegions m)
    (hbacked : ∀ offset < mem.config.usableRegionSize, IsMapped mem.mapRegions (offset / mapRegionSize))
    (h : mem.plan checks n = .ok o) :
    (mem.lastFor n < m ∧ o = none) ∨
      (m ≤ mem.lastFor n ∧ ∃ slot len, mem.lastLen checks (mem.lastFor n) = .ok len ∧
        o = some ⟨m, mem.lastFor n, slot, (mem.config.addr + m * mapRegionSize) % 2 ^ 64,
          (mem.lastFor n - m) * mapRegionSize + len⟩) := by
  have hpos : 0 < mem.mapRegions.length := List.length_pos_iff.mpr hne
  have hslots : mem.mapRegions.length = mem.slotNum := hs.slots.resolve_left hne
  have hfirst := lastFor_usable_le hm hbacked
  have hlast : mem.lastFor n < mem.mapRegions.length := by
    unfold lastFor
    omega
  have hsize : mem.lastFor n * mapRegionSize < mem.config.regionSize := by
    refine lt_getMapRegionsNum.mp ?_
    rw [slotNum, if_pos hs.multi] at hslots
    exact hslots ▸ hlast
  have hregion := hs.sound.region
  have hstop : mem.lastFor n + 1 ≤ U64.max := by
    rw [mapRegionSize_eq] at hsize
    omega
  unfold plan at h
  rw [regionIndex_eq hpos, regionIndex_eq hpos] at h
  obtain ⟨first, hfirst', h1⟩ := bind_eq_ok.mp h
  cases hfirst'
  obtain ⟨last, hlast', h2⟩ := bind_eq_ok.mp h1
  cases hlast'
  rw [add, U64.add_of_le hstop] at h2
  obtain ⟨stop, hstop', h3⟩ := bind_eq_ok.mp h2
  cases hstop'
  rcases Nat.lt_or_ge (mem.lastFor n) m with hlt | hge
  · rw [findSome?_unmapped_none hm (by omega)] at h3
    cases h3
    exact .inl ⟨hlt, rfl⟩
  · have hin : m < mem.lastFor mem.config.usableRegionSize +
        (mem.lastFor n + 1 - mem.lastFor mem.config.usableRegionSize) := by omega
    obtain ⟨slot, hfound⟩ := findSome?_unmapped_some hm (Nat.lt_of_le_of_lt hge hlast) hfirst hin
    simp only [hfound] at h3
    obtain ⟨guestAddr, hguest, h4⟩ := bind_eq_ok.mp h3
    obtain ⟨len, hlen, h5⟩ := bind_eq_ok.mp h4
    obtain ⟨sum, hsum, h6⟩ := bind_eq_ok.mp h5
    cases h6
    obtain ⟨-, hend⟩ := lastLen_eq hs.multi hslots hlast hlen
    rw [shiftLeft_mapRegionShift] at hguest hsum
    have hsub : (mem.lastFor n - m) * mapRegionSize ≤ mem.lastFor n * mapRegionSize :=
      Nat.mul_le_mul_right _ (Nat.sub_le _ _)
    rw [add, U64.add_of_le (by omega)] at hsum
    cases hsum
    cases (U64.add_eq_ok_iff.mp hguest).2
    exact .inr ⟨hge, slot, len, hlen, rfl⟩

theorem plan_ne_nil {p : Plan} (h : mem.plan checks n = .ok (some p)) : mem.mapRegions ≠ [] := by
  intro hnil
  unfold plan at h
  obtain ⟨first, _, h1⟩ := bind_eq_ok.mp h
  obtain ⟨last, _, h2⟩ := bind_eq_ok.mp h1
  obtain ⟨stop, _, h3⟩ := bind_eq_ok.mp h2
  have hnone : (List.range' first (stop - first)).findSome? (unmapped mem.mapRegions) = none := by
    rw [hnil, List.findSome?_eq_none_iff]
    intro i _
    rfl
  rw [hnone] at h3
  cases h3

theorem Wants.le (h : mem.Wants checks n) : n ≤ mem.config.regionSize := newsize_le h.1

theorem div_le_lastFor (hs : Settled mem created) (hne : mem.mapRegions ≠ []) (hn : n ≤ mem.config.regionSize)
    {offset : Nat} (h : offset < n) : offset / mapRegionSize ≤ mem.lastFor n := by
  have hslots := hs.slots.resolve_left hne
  rw [slotNum, if_pos hs.multi] at hslots
  have hlt : offset / mapRegionSize < mem.mapRegions.length := by
    rw [hslots]
    exact lt_getMapRegionsNum.mpr (Nat.lt_of_le_of_lt (Nat.div_mul_le_self _ _) (Nat.lt_of_lt_of_le h hn))
  exact Nat.le_min.mpr ⟨Nat.div_le_div_right (Nat.le_of_lt h), by omega⟩

theorem backing_extend_iff (hb : Backing mem created) (hs : Settled mem created) (h : mem.Wants checks n)
    (hplan : mem.plan checks n = .ok none) :
    Backing { mem with config := { mem.config with usableRegionSize := n } } created ↔ mem.mapRegions ≠ [] := by
  constructor
  · intro hb' hnil
    have hzero := (hb'.backed 0 (Nat.lt_of_le_of_lt (Nat.zero_le _) h.2)).lt_length
    simp only [hnil, List.length_nil] at hzero
    exact Nat.not_lt_zero _ hzero
  · intro hne
    obtain ⟨m, hm⟩ := hb.mapped
    refine ⟨⟨m, hm⟩, ?_, hb.placed, hb.apart, hb.within⟩
    intro offset hoffset
    rcases plan_cases hs hne hm hb.backed hplan with ⟨hlt, -⟩ | ⟨-, _, _, -, hsome⟩
    · exact (hm _).mpr (Nat.lt_of_le_of_lt (div_le_lastFor hs hne h.le hoffset) hlt)
    · cases hsome

theorem lastLen_bounds {last len : Nat} (hs : Settled mem created) (hne : mem.mapRegions ≠ [])
    (hlast : last < mem.mapRegions.length) (h : mem.lastLen checks last = .ok len) :
    0 < len ∧ len ≤ mapRegionSize ∧ last * mapRegionSize + len ≤ mem.config.regionSize := by
  have hslots := hs.slots.resolve_left hne
  obtain ⟨hspan, hend⟩ := lastLen_eq hs.multi hslots hlast h
  rw [slotNum, if_pos hs.multi] at hslots
  have hin := lt_getMapRegionsNum.mp (hslots ▸ hlast)
  rw [span, if_pos hs.multi] at hspan
  refine ⟨?_, ?_, hend⟩
  · have hpos : 0 < min mapRegionSize (mem.config.regionSize - last * mapRegionSize) :=
      Nat.lt_min.mpr ⟨mapRegionSize_pos, Nat.sub_pos_of_lt hin⟩
    exact Nat.lt_of_lt_of_le hpos hspan
  · unfold lastLen at h
    split at h
    · rename_i hfinal
      have hover : ¬ (last + 1) * mapRegionSize < mem.config.regionSize := by
        intro hlt
        have := lt_getMapRegionsNum.mpr hlt
        omega
      rw [Nat.succ_mul] at hover
      omega
    · cases h
      exact Nat.le_refl _

/-- A plan is for the map regions from the first one that is not mapped on, and for no byte beyond
the region. -/
structure Fits (mem : Mem) (n : Nat) (p : Plan) : Prop where
  last : p.last = mem.lastFor n
  first_le : p.first ≤ p.last
  mapped : MappedUpTo mem.mapRegions p.first
  guestAddr : p.guestAddr = (mem.config.addr + p.first * mapRegionSize) % 2 ^ 64
  reaches : (p.last - p.first) * mapRegionSize < p.len
  below : p.first * mapRegionSize + p.len ≤ (p.last + 1) * mapRegionSize
  within : p.first * mapRegionSize + p.len ≤ mem.config.regionSize

theorem plan_fits {p : Plan} (hb : Backing mem created) (hs : Settled mem created)
    (hplan : mem.plan checks n = .ok (some p)) : mem.Fits n p := by
  have hne := plan_ne_nil hplan
  have hpos : 0 < mem.mapRegions.length := List.length_pos_iff.mpr hne
  obtain ⟨m, hm⟩ := hb.mapped
  rcases plan_cases hs hne hm hb.backed hplan with ⟨-, hnone⟩ | ⟨hle, slot, len, hlen, hsome⟩
  · cases hnone
  cases hsome
  have hlast : mem.lastFor n < mem.mapRegions.length := by
    unfold lastFor
    omega
  obtain ⟨hlenpos, hlenle, hend⟩ := lastLen_bounds hs hne hlast hlen
  have hsplit : m * mapRegionSize + (mem.lastFor n - m) * mapRegionSize = mem.lastFor n * mapRegionSize := by
    rw [← Nat.add_mul, Nat.add_sub_cancel' hle]
  refine ⟨rfl, hle, hm, rfl, Nat.lt_add_of_pos_right hlenpos, ?_, ?_⟩
  · show m * mapRegionSize + ((mem.lastFor n - m) * mapRegionSize + len) ≤ (mem.lastFor n + 1) * mapRegionSize
    rw [Nat.succ_mul]
    omega
  · show m * mapRegionSize + ((mem.lastFor n - m) * mapRegionSize + len) ≤ mem.config.regionSize
    omega

section Map

variable {p : Plan} {hostAddr : Nat} {regions : List MapRegion}

variable (hhost : hostAddr < 2 ^ 64)
  (hmap : mapFrom checks mem.mapRegions p.first hostAddr p.guestAddr (p.last - p.first + 1) = .ok regions)

include hhost hmap

theorem Fits.mappedAt_eq (hp : mem.Fits n p) (i : Nat) :
    mappedAt regions i = if p.first ≤ i ∧ i ≤ p.last then
        some (some ((hostAddr + (i - p.first) * mapRegionSize) % 2 ^ 64,
          (p.guestAddr + (i - p.first) * mapRegionSize) % 2 ^ 64))
      else mappedAt mem.mapRegions i := by
  have hguest : p.guestAddr < 2 ^ 64 := hp.guestAddr ▸ Nat.mod_lt _ (by decide)
  have hle := hp.first_le
  rw [mapFrom_at hhost hguest hmap i]
  refine if_congr ?_ rfl rfl
  omega

theorem Fits.mappedUpTo (hp : mem.Fits n p) : MappedUpTo regions (p.last + 1) := by
  intro i
  have hle := hp.first_le
  rw [IsMapped, hp.mappedAt_eq hhost hmap i]
  by_cases hi : p.first ≤ i ∧ i ≤ p.last
  · rw [if_pos hi]
    exact ⟨fun _ => Nat.lt_succ_of_le hi.2, fun _ => ⟨_, rfl⟩⟩
  · rw [if_neg hi]
    refine (hp.mapped i).trans ?_
    omega

theorem backing_map_iff (hb : Backing mem created) (hs : Settled mem created) (h : mem.Wants checks n)
    (hplan : mem.plan checks n = .ok (some p)) :
    Backing { mem with mapRegions := regions, config := { mem.config with usableRegionSize := n } }
        (created ++ [mem.regionOf p hostAddr]) ↔
      ∀ r ∈ created, r.base ≠ mem.config.addr → r.Apart (mem.regionOf p hostAddr) := by
  have hp := plan_fits hb hs hplan
  have hupto := hp.mappedUpTo hhost hmap
  constructor
  · intro hb' r hr _
    exact (List.pairwise_append.mp hb'.apart).2.2 r hr _ (.head _)
  · intro hapart
    refine ⟨⟨_, hupto⟩, ?_, ?_, ?_, ?_⟩
    · intro offset hoffset
      have hle := div_le_lastFor hs (plan_ne_nil hplan) h.le hoffset
      exact (hupto _).mpr (Nat.lt_succ_of_le (hp.last ▸ hle))
    · intro i host guest hat
      rw [show mappedAt regions i = _ from hp.mappedAt_eq hhost hmap i] at hat
      by_cases hi : p.first ≤ i ∧ i ≤ p.last
      · rw [if_pos hi] at hat
        cases hat
        refine ⟨mem.regionOf p hostAddr, List.mem_append_right _ (.head _), hi.1, ?_, rfl, rfl⟩
        have hmono : (i - p.first) * mapRegionSize ≤ (p.last - p.first) * mapRegionSize :=
          Nat.mul_le_mul_right _ (Nat.sub_le_sub_right hi.2 _)
        exact Nat.lt_of_le_of_lt hmono hp.reaches
      · rw [if_neg hi] at hat
        obtain ⟨r, hr, hrest⟩ := hb.placed i host guest hat
        exact ⟨r, List.mem_append_left _ hr, hrest⟩
    · refine List.pairwise_append.mpr ⟨hb.apart, List.pairwise_singleton _ _, ?_⟩
      intro r hr r' hr'
      cases List.mem_singleton.mp hr'
      by_cases hbase : r.base = mem.config.addr
      · exact apart_of_base hbase hp.guestAddr (hs.based r hr) (hs.below _ hp.mapped r hr) hp.within
          (Nat.lt_succ_of_le hs.sound.region)
      · exact hapart r hr hbase
    · intro r hr
      rcases List.mem_append.mp hr with hr | hr
      · exact hb.within r hr
      · cases List.mem_singleton.mp hr
        exact hp.within

theorem settled_map (hb : Backing mem created) (hs : Settled mem created) (h : mem.Wants checks n)
    (hplan : mem.plan checks n = .ok (some p)) :
    Settled { mem with mapRegions := regions, config := { mem.config with usableRegionSize := n } }
      (created ++ [mem.regionOf p hostAddr]) := by
  have hp := plan_fits hb hs hplan
  have hupto := hp.mappedUpTo hhost hmap
  refine ⟨⟨hs.sound.block, hs.sound.region, h.le⟩, hs.multi, .inr ?_, ?_, ?_⟩
  · exact (length_mapFrom hmap).trans (hs.slots.resolve_left (plan_ne_nil hplan))
  · intro m hm r hr
    have heq : m = p.last + 1 := by
      refine Nat.le_antisymm ?_ ?_
      · by_contra hgt
        have := (hupto (p.last + 1)).mp ((hm _).mpr (by omega))
        omega
      · by_contra hgt
        have := (hm m).mp ((hupto _).mpr (by omega))
        omega
    rw [heq]
    rcases List.mem_append.mp hr with hr | hr
    · refine Nat.le_trans (hs.below _ hp.mapped r hr) (Nat.mul_le_mul_right _ ?_)
      exact Nat.le_succ_of_le hp.first_le
    · cases List.mem_singleton.mp hr
      exact hp.below
  · intro r hr
    rcases List.mem_append.mp hr with hr | hr
    · exact hs.based r hr
    · cases List.mem_singleton.mp hr
      exact hp.guestAddr

end Map

/-! ## One resize -/

/-- `create_region` is called, and fails. -/
def Refuses (checks : Bool) (factory : Factory) (mem : Mem) : Prop :=
  ∃ n p, mem.Wants checks n ∧ mem.plan checks n = .ok (some p) ∧ factory p.guestAddr p.len p.slot = none

theorem Wants.eq {k : Nat} (h : mem.Wants checks n) (hk : mem.Wants checks k) : k = n := by
  cases h.1.symm.trans hk.1
  rfl

theorem resizes_backing_iff {res : Except Error Unit} (hb : Backing mem created) (hs : Settled mem created)
    (hfactory : ∀ guestAddr len slot hostAddr, factory guestAddr len slot = some hostAddr → hostAddr < 2 ^ 64)
    (h : mem.Resizes checks factory res mem' new) :
    Backing mem' (created ++ new) ↔
      (∀ n, mem.Wants checks n → mem.mapRegions ≠ []) ∧
        ∀ r' ∈ new, ∀ r ∈ created, r.base ≠ r'.base → r.Apart r' := by
  cases h with
  | keep hno =>
    rw [List.append_nil]
    exact ⟨fun _ => ⟨fun n hn => absurd hn (hno n), nofun⟩, fun _ => hb⟩
  | extend hwants hplan =>
    rw [List.append_nil, backing_extend_iff hb hs hwants hplan]
    exact ⟨fun hne => ⟨fun _ _ => hne, nofun⟩, fun hne => hne.1 _ hwants⟩
  | fail hwants hplan _ =>
    rw [List.append_nil]
    exact ⟨fun _ => ⟨fun _ _ => plan_ne_nil hplan, nofun⟩, fun _ => hb⟩
  | map hwants hplan hcreate hmap =>
    rw [backing_map_iff (hfactory _ _ _ _ hcreate) hmap hb hs hwants hplan]
    constructor
    · intro hapart
      refine ⟨fun _ _ => plan_ne_nil hplan, fun r' hr' r hr hbase => ?_⟩
      cases List.mem_singleton.mp hr'
      exact hapart r hr hbase
    · intro hapart r hr hbase
      exact hapart.2 _ (.head _) r hr hbase

theorem resizes_settled {res : Except Error Unit} (hb : Backing mem created) (hs : Settled mem created)
    (hfactory : ∀ guestAddr len slot hostAddr, factory guestAddr len slot = some hostAddr → hostAddr < 2 ^ 64)
    (h : mem.Resizes checks factory res mem' new) : Settled mem' (created ++ new) := by
  cases h with
  | keep _ | fail _ _ _ =>
    rw [List.append_nil]
    exact hs
  | extend hwants _ =>
    rw [List.append_nil]
    exact ⟨⟨hs.sound.block, hs.sound.region, hwants.le⟩, hs.multi, hs.slots, hs.below, hs.based⟩
  | map hwants hplan hcreate hmap => exact settled_map (hfactory _ _ _ _ hcreate) hmap hb hs hwants hplan

end Mem

end Kata.VirtioMem
