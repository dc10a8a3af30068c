import Kata.VirtioMem.Accounting

/-!
# Kata.VirtioMem.Mapping

The map regions of the virtio-mem device, from the first call of the host on. A region that is
mapped has host addresses for all the bytes it stands for (`Backed`), whichever calls have mapped it
(`Prepared.slotted`), although `virtio_mem_resize_usable_region` adds up the addresses of several
regions that are mapped together.
-/

namespace Kata.VirtioMem

open Lib

variable {checks : Bool} {mem mem' : Mem}

namespace Mem

/-- The bytes of the region that a map region stands for. -/
def span (mem : Mem) (index : Nat) : Nat :=
  if mem.multiRegion then min mapRegionSize (mem.config.regionSize - index * mapRegionSize)
  else mem.config.regionSize

/-- Every map region that is mapped has host addresses for all its bytes. -/
def Backed (mem : Mem) (mapRegions : List MapRegion) : Prop :=
  ∀ index base guest, mappedAt mapRegions index = some (some (base, guest)) → base + mem.span index ≤ U64.max

/-- The map regions of a device that can be activated. -/
structure Ready (mem : Mem) : Prop where
  length : mem.mapRegions.length = mem.slotNum
  backed : mem.Backed mem.mapRegions

end Mem

theorem and_mapRegionMask (n : Nat) : n &&& mapRegionMask = n % mapRegionSize := by
  rw [show mapRegionMask = 2 ^ 31 - 1 by decide, show mapRegionSize = 2 ^ 31 by decide,
    Nat.and_two_pow_sub_one_eq_mod]

theorem shiftRight_mapRegionShift (n : Nat) : n >>> mapRegionShift = n / mapRegionSize := by
  rw [mapRegionShift, Nat.shiftRight_eq_div_pow]
  rfl

theorem shiftLeft_mapRegionShift (n : Nat) : n <<< mapRegionShift = n * mapRegionSize := by
  rw [mapRegionShift, Nat.shiftLeft_eq]
  rfl

theorem mapRegionSize_pos : 0 < mapRegionSize := by decide

/-! ## Calls of the host -/

/-- `create_region` maps as many bytes as it is asked for, and a mapping ends below the last
address. -/
def Factory.Genuine (factory : Factory) : Prop :=
  ∀ guestAddr len slot hostAddr, factory guestAddr len slot = some hostAddr → hostAddr + len ≤ U64.max

namespace Mem

variable {factory : Factory} {regions regions' : List MapRegion}

/-- The map regions before the device has been given its slots, and after. -/
structure Slotted (mem : Mem) : Prop where
  length : mem.mapRegions = [] ∨ mem.mapRegions.length = mem.slotNum
  backed : mem.Backed mem.mapRegions

theorem Backed.set {index hostAddr guestAddr : Nat} {region : MapRegion} (h : mem.Backed regions)
    (hend : hostAddr + mem.span index ≤ U64.max) :
    mem.Backed (regions.set index { region with mapped := some (hostAddr, guestAddr) }) := by
  intro k base guest hat
  by_cases hk : index = k
  · subst hk
    rw [mappedAt, List.getElem?_set] at hat
    simp only [if_true] at hat
    split at hat
    · cases hat
      exact hend
    · cases hat
  · rw [mappedAt, List.getElem?_set_ne hk] at hat
    exact h k base guest hat

theorem mapFrom_backed {index hostAddr guestAddr n : Nat} (h : mem.Backed regions)
    (hend : ∀ k < n, hostAddr + k * mapRegionSize + mem.span (index + k) ≤ U64.max)
    (hmap : mapFrom checks regions index hostAddr guestAddr n = .ok regions') :
    mem.Backed regions' ∧ regions'.length = regions.length := by
  induction n generalizing regions index hostAddr guestAddr with
  | zero =>
    cases hmap
    exact ⟨h, rfl⟩
  | succ n ih =>
    unfold mapFrom at hmap
    split at hmap
    · cases hmap
    · obtain ⟨hostAddr', hhost, hrest⟩ := bind_eq_ok.mp hmap
      obtain ⟨guestAddr', _, hrest'⟩ := bind_eq_ok.mp hrest
      have hfirst := hend 0 (Nat.succ_pos n)
      rw [Nat.zero_mul, Nat.add_zero, Nat.add_zero] at hfirst
      have hset := ih (h.set hfirst) ?_ hrest'
      · rw [List.length_set] at hset
        exact hset
      · intro k hk
        -- only the addition after the last region may wrap around
        have hnext := hend (k + 1) (Nat.succ_lt_succ hk)
        rw [Nat.succ_mul] at hnext
        rcases U64.add_eq_ok hhost with ⟨_, rfl⟩ | ⟨hwrap, _⟩
        · rw [show index + 1 + k = index + (k + 1) by omega]
          omega
        · omega

theorem regionIndex_lt {size index : Nat} (hpos : 0 < mem.mapRegions.length)
    (h : mem.regionIndex checks size = .ok index) : index < mem.mapRegions.length := by
  unfold regionIndex at h
  split at h
  · rw [sub, U64.sub_of_le hpos] at h
    cases h
    omega
  · cases h
    omega

theorem getMapRegionsNum_eq (n : Nat) :
    getMapRegionsNum n = n / mapRegionSize + if n % mapRegionSize > 0 then 1 else 0 := by
  rw [getMapRegionsNum, shiftRight_mapRegionShift, and_mapRegionMask]

/-- The last of the map regions that are mapped together ends with the region or before. -/
theorem lastLen_eq {last len : Nat} (hmulti : mem.multiRegion = true) (hslots : mem.mapRegions.length = mem.slotNum)
    (hlast : last < mem.mapRegions.length) (h : mem.lastLen checks last = .ok len) :
    mem.span last ≤ len ∧ last * mapRegionSize + len ≤ mem.config.regionSize := by
  have hbelow : ∀ k ≤ mem.config.regionSize / mapRegionSize,
      k * mapRegionSize ≤ mem.config.regionSize := fun k hk =>
    Nat.le_trans (Nat.mul_le_mul_right _ hk) (Nat.div_mul_le_self _ _)
  rw [slotNum, if_pos hmulti, getMapRegionsNum_eq] at hslots
  rw [span, if_pos hmulti]
  unfold lastLen at h
  split at h
  · rename_i hend
    have hle := hbelow last (by split at hslots <;> omega)
    rw [shiftLeft_mapRegionShift, sub, U64.sub_of_le hle] at h
    cases h
    omega
  · rename_i hend
    cases h
    have hle := hbelow (last + 1) (by split at hslots <;> omega)
    rw [Nat.succ_mul] at hle
    omega

theorem unmapped_mem {first stop index : Nat} {slot : UInt32}
    (h : (List.range' first (stop - first)).findSome? (unmapped regions) = some (index, slot)) : index < stop := by
  obtain ⟨k, hk, hfound⟩ := List.exists_of_findSome?_eq_some h
  have hindex : k = index := by
    unfold unmapped at hfound
    split at hfound
    · split at hfound
      · cases hfound
        rfl
      · cases hfound
    · cases hfound
  rw [List.mem_range'_1] at hk
  omega

theorem mapNew_backed {newsize : Nat} (hf : factory.Genuine) (hm : mem.Sound) (hmulti : mem.multiRegion = true)
    (hs : mem.Slotted) (h : mem.mapNew checks factory newsize = .ok (some regions')) :
    mem.Backed regions' ∧ regions'.length = mem.mapRegions.length := by
  unfold mapNew at h
  obtain ⟨first, _, h1⟩ := bind_eq_ok.mp h
  obtain ⟨last, hlast, h2⟩ := bind_eq_ok.mp h1
  obtain ⟨stop, hstop, h3⟩ := bind_eq_ok.mp h2
  split at h3
  · cases h3
    exact ⟨hs.backed, rfl⟩
  · rename_i index slot hfound
    -- there is a region to be mapped, so the device has its slots
    have hpos : 0 < mem.mapRegions.length := by
      obtain ⟨k, _, hk⟩ := List.exists_of_findSome?_eq_some hfound
      unfold unmapped at hk
      split at hk
      · rename_i region hregion
        exact Nat.lt_of_le_of_lt (Nat.zero_le _) (List.getElem?_eq_some_iff.mp hregion).1
      · cases hk
    have hslots : mem.mapRegions.length = mem.slotNum := by
      rcases hs.length with hnil | hlen
      · rw [hnil] at hpos
        exact absurd hpos (Nat.lt_irrefl 0)
      · exact hlen
    have hlt := regionIndex_lt hpos hlast
    have hindex := unmapped_mem hfound
    have hstop' := U64.add_le hstop
    obtain ⟨guestAddr, _, h4⟩ := bind_eq_ok.mp h3
    obtain ⟨len, hlen, h5⟩ := bind_eq_ok.mp h4
    obtain ⟨regionLen, hregionLen, h6⟩ := bind_eq_ok.mp h5
    obtain ⟨hspan, hin⟩ := lastLen_eq hmulti hslots hlt hlen
    have hregion := hm.region
    have hsub : (last - index) * mapRegionSize ≤ last * mapRegionSize := Nat.mul_le_mul_right _ (Nat.sub_le _ _)
    rw [shiftLeft_mapRegionShift, add, U64.add_of_le (by omega)] at hregionLen
    cases hregionLen
    split at h6
    · cases h6
    · rename_i hostAddr hcreated
      have hend := hf _ _ _ _ hcreated
      obtain ⟨regions, hmap, h7⟩ := bind_eq_ok.mp h6
      cases h7
      refine mapFrom_backed hs.backed ?_ hmap
      intro k hk
      by_cases hkl : k = last - index
      · rw [hkl, show index + (last - index) = last by omega]
        omega
      · have hle : (k + 1) * mapRegionSize ≤ (last - index) * mapRegionSize := Nat.mul_le_mul_right _ (by omega)
        have hspan' : mem.span (index + k) ≤ mapRegionSize := by
          rw [span, if_pos hmulti]
          exact Nat.min_le_left _ _
        rw [Nat.succ_mul] at hle
        omega

theorem resizeUsableRegion_slotted {canShrink : Bool} {res : Except Error Unit}
    (hf : factory.Genuine) (hm : mem.Sound)
    (hs : mem.Slotted) (h : mem.resizeUsableRegion checks factory canShrink = .ok (res, mem')) :
    mem'.Slotted ∧ (mem'.mapRegions.length = mem.mapRegions.length ∧ mem'.slotNum = mem.slotNum) := by
  unfold resizeUsableRegion at h
  obtain ⟨n, _, h1⟩ := bind_eq_ok.mp h
  obtain ⟨grown, hgrown, h2⟩ := bind_eq_ok.mp h1
  cases grown with
  | none =>
    cases h2
    exact ⟨hs, rfl, rfl⟩
  | some regions' =>
    have hback : mem.Backed regions' ∧ regions'.length = mem.mapRegions.length := by
      unfold growRegions at hgrown
      split at hgrown
      · rename_i hgrow
        exact mapNew_backed hf hm hgrow.2 hs hgrown
      · cases hgrown
        exact ⟨hs.backed, rfl⟩
    have hlen : regions' = [] ∨ regions'.length = mem.slotNum := by
      rw [← List.length_eq_zero_iff, hback.2, List.length_eq_zero_iff]
      exact hs.length
    simp only at h2
    split at h2
    · cases h2
      exact ⟨⟨hlen, hback.1⟩, hback.2, rfl⟩
    · cases h2
      exact ⟨⟨hlen, hback.1⟩, hback.2, rfl⟩

theorem setRequestedSize_slotted {requestedSizeMb : Nat} {notified : Bool} {res : Except Error Unit}
    (hf : factory.Genuine) (hm : mem.Sound) (hs : mem.Slotted)
    (h : mem.setRequestedSize checks factory requestedSizeMb notified = .ok (res, mem')) :
    mem'.Slotted ∧ (mem'.mapRegions.length = mem.mapRegions.length ∧ mem'.slotNum = mem.slotNum) := by
  rcases setRequestedSize_cases h with rfl | ⟨_, _, hresize⟩
  · exact ⟨hs, rfl, rfl⟩
  · have hout := fun hm' hs' => resizeUsableRegion_slotted hf hm' hs' hresize
    exact hout ⟨hm.block, hm.region, hm.usable⟩ ⟨hs.length, hs.backed⟩

theorem setResource_slotted {memRes : List (Nat × Nat)} {slotRes : List UInt32} {res : Except Error Unit}
    (hf : factory.Genuine) (hm : mem.Sound) (hs : mem.Slotted)
    (h : mem.setResource checks factory memRes slotRes = .ok (res, mem')) : mem'.Slotted := by
  unfold setResource at h
  split at h
  · rename_i addr size
    split at h
    · cases h
      exact hs
    · rename_i hres
      have hslots : slotRes.length = mem.slotNum := by
        by_contra hne
        exact hres (.inl hne)
      simp only at h
      split at h
      · cases h
        exact ⟨hs.length, hs.backed⟩
      · rename_i mapRegions hinit
        refine (resizeUsableRegion_slotted hf ?_ ?_ h).1
        · exact ⟨hm.block, hm.region, hm.usable⟩
        unfold initialRegions at hinit
        split at hinit
        · cases hinit
          exact ⟨hs.length, hs.backed⟩
        split at hinit
        · cases hinit
          refine ⟨.inr ((List.length_map _).trans hslots), ?_⟩
          intro index base guest hat
          rw [mappedAt, List.getElem?_map, Option.map_map] at hat
          obtain ⟨slot, _, hnone⟩ := Option.map_eq_some_iff.mp hat
          cases hnone
        · rename_i hmulti
          split at hinit
          · cases hinit
          · rename_i slot rest
            obtain ⟨hostAddr, hcreated, rfl⟩ := Option.map_eq_some_iff.mp hinit
            have hone : mem.slotNum = 1 := by
              rw [slotNum, if_neg hmulti]
            refine ⟨.inr hone.symm, ?_⟩
            intro index base guest hat
            cases index with
            | zero =>
              cases hat
              have hspan : span { mem with
                  config := { mem.config with addr := addr }
                  mapRegions := [⟨slot, some (hostAddr, addr)⟩] } 0 = mem.config.regionSize := if_neg hmulti
              rw [hspan]
              exact hf _ _ _ _ hcreated
            | succ index => cases hat
  · cases h
    exact hs

/-- A device before it is activated, with regions from a genuine factory. -/
inductive Prepared (checks : Bool) : Mem → Prop where
  | new {capacity requestedSizeMib bootMemByte : Nat} {multiRegion : Bool} {mem : Mem}
      (h : Mem.new checks capacity requestedSizeMib multiRegion bootMemByte = .ok (.ok mem)) : Prepared checks mem
  | setResource {mem mem' : Mem} {factory : Factory} {memRes : List (Nat × Nat)} {slotRes : List UInt32}
      {res : Except Error Unit} (hb : Prepared checks mem) (hf : factory.Genuine)
      (h : mem.setResource checks factory memRes slotRes = .ok (res, mem')) : Prepared checks mem'
  | setRequestedSize {mem mem' : Mem} {factory : Factory} {requestedSizeMb : Nat} {notified : Bool}
      {res : Except Error Unit} (hb : Prepared checks mem) (hf : factory.Genuine)
      (h : mem.setRequestedSize checks factory requestedSizeMb notified = .ok (res, mem')) : Prepared checks mem'

theorem Prepared.built (h : Prepared checks mem) : Built checks mem := by
  induction h with
  | new h => exact .new h
  | setResource hb hf h ih => exact .setResource ih h
  | setRequestedSize hb hf h ih => exact .setRequestedSize ih h

theorem Prepared.slotted (h : Prepared checks mem) : mem.Slotted := by
  induction h with
  | new h =>
    have hnil := (new_spec h).2.1
    refine ⟨.inl hnil, ?_⟩
    intro index base guest hat
    rw [hnil, mappedAt] at hat
    cases hat
  | setResource hb hf h ih => exact setResource_slotted hf hb.built.sound.1 ih h
  | setRequestedSize hb hf h ih => exact (setRequestedSize_slotted hf hb.built.sound.1 ih h).1

end Mem

end Kata.VirtioMem
