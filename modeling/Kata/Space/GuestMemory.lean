import Kata.Lib.Hole
import Kata.Resources.Reserved
import Kata.Space.Manager
import Mathlib.Data.Finset.Card

/-!
# Kata.Space.GuestMemory

Where `create_address_space` puts the guest memory.

`hole` has the bounds of the MMIO hole, and the first loop of the source lays the sizes out around
it as `Lib.Hole` does (`placeInfo_safe`, `placeInfos_safe`), as long as the end stays below `2 ^
64`; from there on the sums overflow before they are checked (`placeInfos_panics`). The second loop
allocates the addresses (`mapRegions_safe`).

`createAddressSpace_correct_iff` says for which sizes the result is right. The size in bytes is what
`checked_shl` leaves of it, and `from_regions` does not accept memory that ends with
`GUEST_MEM_END`, although it is allocated.
-/

namespace Kata.Space

open Allocator Resources Lib Lib.Procedure

/-- The hole for MMIO below 4 GiB. -/
def hole : Hole := ⟨mmioLowStart, mmioLowEnd + 1, minimalSplitSpace, by decide⟩

theorem hole_split_pos : 0 < hole.split := by decide

theorem hole_outside_zero : hole.Outside 0 := .inl (Nat.zero_le _)

/-- The bytes that an entry asks for. -/
def NumaRegionInfo.wanted (info : NumaRegionInfo) : Nat := info.size.val * 2 ^ 20

/-- The bytes of an entry, as `checked_shl` has them. -/
def NumaRegionInfo.bytes (info : NumaRegionInfo) : Nat := info.wanted % 2 ^ 64

def NumaRegionInfo.region (info : NumaRegionInfo) (p : Nat × Nat) : AddressSpaceRegion where
  ty := .defaultMemory
  base := Fin.ofNat _ p.1
  size := Fin.ofNat _ p.2
  hostNumaNodeId := info.hostNumaNodeId
  protFlags := protReadWrite

/-- The regions of each entry. -/
def groups (start : Nat) : List NumaRegionInfo → List (List AddressSpaceRegion)
  | [] => []
  | info :: rest => (hole.pieces start info.bytes).map info.region :: groups (hole.next start info.bytes) rest

def laid (start : Nat) (infos : List NumaRegionInfo) : List AddressSpaceRegion := (groups start infos).flatten

/-- The host does all that it is asked to. -/
def Host.Sure (host : Host) : Prop := ∀ n, host.answers n = true

section Place

variable {b : Build} {host : Host} {s : State} {c : Prop} {info : NumaRegionInfo} {start : U64}

theorem bytes_lt (info : NumaRegionInfo) : info.bytes < 2 ^ 64 := Nat.mod_lt _ (by decide)

theorem checkedShl_eq (info : NumaRegionInfo) : checkedShl info.size 20 = some ⟨info.bytes, bytes_lt info⟩ := rfl

theorem callHost_of_true (e : AddressManagerError) (h : host.answers s.calls = true) :
    callHost host e s = .ok (.ok (), { s with calls := s.calls + 1 }) := by rw [callHost, h]; rfl

/-- A call to the host changes nothing but the number of calls, or it fails. -/
theorem callHost_bind {β : Type} {f : Unit → Work β} {Q : β → State → Prop} (e : AddressManagerError)
    (hc : c → host.Sure) (h : Safe c (f ()) { s with calls := s.calls + 1 } Q) :
    Safe c (callHost host e >>= f) s Q := by
  cases ha : host.answers s.calls with
  | true => exact .step (callHost_of_true e ha) h
  | false =>
    refine .of_error (t := { s with calls := s.calls + 1 }) (e := e) ?_ fun h' => ?_
    · show Procedure.bind _ _ _ = _
      rw [Procedure.bind, callHost, ha]
      rfl
    · rw [hc h' s.calls] at ha
      cases ha

theorem arithmetic_of_ok {x : Except Panic Nat} {n : Nat} (h : x = .ok n) : arithmetic x s = .ok (.ok n, s) :=
  lift_of_ok (by rw [h]; rfl)

variable {size : U64}

theorem arithmetic_add {checks : Bool} (h : start.val + size.val < 2 ^ 64) :
    arithmetic (addU64 checks start size) s = .ok (.ok (start.val + size.val), s) := by
  refine arithmetic_of_ok (addU64_of_le ?_)
  simp only [u64Max]
  omega

theorem createRegion_safe (hfits : start.val + size.val < 2 ^ 64) (hc : c → host.Sure) :
    Safe c (createRegion b host start size info) s fun region s' =>
      region = info.region (start.val, size.val) ∧ s'.resMgr = s.resMgr := by
  have hregion : info.region (start.val, size.val) =
      { ty := .defaultMemory, base := start, size := size, hostNumaNodeId := info.hostNumaNodeId,
        protFlags := protReadWrite } := by
    simp [NumaRegionInfo.region]
  refine callHost_bind _ hc (.step rfl ?_)
  refine .ite (fun _ => ?_) fun _ => .pure ⟨hregion.symm, rfl⟩
  exact .step (arithmetic_add hfits) (.pure ⟨hregion.symm, rfl⟩)

theorem clearOfHole_of_fits (hfits : start.val + size.val < 2 ^ 64) :
    clearOfHole b start size s = .ok (.ok (decide (hole.Whole start.val size.val)), s) := by
  unfold clearOfHole
  by_cases hgt : start.val > mmioLowEnd
  · rw [if_pos hgt, decide_eq_true (show hole.Whole start.val size.val from .inl hgt)]
    rfl
  · have hiff : hole.Whole start.val size.val ↔ start.val + size.val ≤ mmioLowStart :=
      or_iff_right fun hle => hgt hle
    rw [if_neg hgt, bind_of_ok (arithmetic_add hfits), decide_eq_decide.mpr hiff]
    rfl

theorem checkedAdd_of_lt {x y : U64} (h : x.val + y.val < 2 ^ 64) : checkedAdd x y = some ⟨x.val + y.val, h⟩ :=
  dif_pos h

theorem checkedSub_of_le {x y : U64} (h : y.val ≤ x.val) :
    checkedSub x y = some ⟨x.val - y.val, Nat.lt_of_le_of_lt (Nat.sub_le _ _) x.isLt⟩ := if_pos h

/-- What is created below the hole. -/
def belowRegions (start : Nat) (info : NumaRegionInfo) : List AddressSpaceRegion :=
  if hole.lo - start < hole.split then [] else [info.region (start, hole.lo - start)]

theorem createBelow_safe (hle : start.val ≤ mmioLowStart) (hc : c → host.Sure) :
    Safe c (createBelow b host start info) s fun out s' =>
      out.1 = belowRegions start.val info ∧ out.2.val = hole.below start.val ∧ s'.resMgr = s.resMgr := by
  have hval : (Fin.ofNat (2 ^ 64) mmioLowStart).val = mmioLowStart := by decide
  refine .step (okOr_of_some (checkedSub_of_le (by rw [hval]; exact hle))) ?_
  unfold belowRegions Hole.below
  refine .ite ?_ ?_
  · intro hlt
    have hlt : hole.lo - start.val < hole.split := hlt
    rw [if_pos hlt, if_pos hlt]
    exact .pure ⟨rfl, rfl, rfl⟩
  · intro hge
    have hge : ¬ hole.lo - start.val < hole.split := hge
    rw [if_neg hge, if_neg hge]
    refine (createRegion_safe ?_ hc).bind ?_
    · have hlo : mmioLowStart = 3221225472 := by decide
      show start.val + ((Fin.ofNat (2 ^ 64) mmioLowStart).val - start.val) < _
      omega
    · rintro region s1 ⟨rfl, h1⟩
      exact .pure ⟨rfl, rfl, h1⟩

theorem placeInfo_safe (ho : hole.Outside start.val) (hnext : hole.next start.val info.bytes < 2 ^ 64)
    (hc : c → host.Sure) :
    Safe c (placeInfo b host start info) s fun out s' =>
      out.1 = (hole.pieces start.val info.bytes).map info.region ∧ out.2.val = hole.next start.val info.bytes ∧
        s'.resMgr = s.resMgr := by
  have hfits : start.val + info.bytes < 2 ^ 64 := Nat.lt_of_le_of_lt (Hole.add_le_next ho) hnext
  refine .step (okOr_of_some (checkedShl_eq info)) (.step (clearOfHole_of_fits hfits) ?_)
  unfold Hole.pieces Hole.next at *
  by_cases hw : hole.Whole start.val info.bytes
  · simp only [hw, decide_true, if_true]
    refine (createRegion_safe hfits hc).bind ?_
    rintro region s2 ⟨rfl, h2⟩
    exact .step (okOr_of_some (checkedAdd_of_lt hfits)) (.pure ⟨rfl, rfl, h2⟩)
  · have hstart := Hole.le_of_not_whole ho hw
    have hbelow := Hole.below_le (h := hole) start.val
    simp only [hw, decide_false, if_false, Bool.false_eq_true] at hnext ⊢
    refine (createBelow_safe hstart.1 hc).bind ?_
    rintro ⟨below, belowSize⟩ s2 ⟨hregions, hsize, h2⟩
    dsimp only at hregions hsize ⊢
    have hhi : (Fin.ofNat (2 ^ 64) (mmioLowEnd + 1)).val = hole.hi := by decide
    have hfits' : (Fin.ofNat (2 ^ 64) (mmioLowEnd + 1)).val + (info.bytes - belowSize.val) < 2 ^ 64 := by
      rwa [hhi, hsize]
    refine .step (okOr_of_some (checkedSub_of_le (y := belowSize) ?_)) ?_
    · rw [hsize]
      exact Nat.le_trans hbelow (Nat.le_of_lt hstart.2)
    refine (createRegion_safe hfits' hc).bind ?_
    rintro region s3 ⟨rfl, h3⟩
    refine .step (okOr_of_some (checkedAdd_of_lt hfits')) (.pure ⟨?_, ?_, h3.trans h2⟩)
    · dsimp only
      rw [hregions, hhi, hsize]
      unfold belowRegions Hole.below
      split
      · simp
      · simp
    · show _ + (info.bytes - belowSize.val) = _
      rw [hhi, hsize]

variable {infos : List NumaRegionInfo}

theorem placeInfos_safe (ho : hole.Outside start.val)
    (hfinal : hole.final start.val (infos.map NumaRegionInfo.bytes) < 2 ^ 64) (hc : c → host.Sure) :
    Safe c (placeInfos b host start infos) s fun regions s' =>
      regions = laid start.val infos ∧ s'.resMgr = s.resMgr := by
  induction infos generalizing start s with
  | nil => exact .pure ⟨rfl, rfl⟩
  | cons info rest ih =>
    have hout := Hole.next_outside (h := hole) start.val info.bytes
    have hnext : hole.next start.val info.bytes < 2 ^ 64 :=
      Nat.lt_of_le_of_lt (Hole.le_final hout _) hfinal
    refine (placeInfo_safe ho hnext hc).bind ?_
    rintro ⟨regions, next⟩ s1 ⟨hregions, hval, h1⟩
    dsimp only at hregions hval ⊢
    rw [← hval] at hout
    refine (ih hout (hval ▸ hfinal)).bind ?_
    rintro more s2 ⟨rfl, h2⟩
    refine .pure ⟨?_, h2.trans h1⟩
    rw [hregions, hval]
    rfl

/-! ### Overflow -/

/-- A build in which every overflow panics. -/
def strict : Build := ⟨true, true, true⟩

theorem arithmetic_panics {x y : Nat} (h : 2 ^ 64 ≤ x + y) : Panics (arithmetic (addU64 true x y)) s := by
  refine .lift (p := .allocator .overflow) ?_
  rw [addU64, if_neg (by simp only [u64Max]; omega)]
  rfl

theorem createRegion_panics (hover : 2 ^ 64 ≤ start.val + size.val) (hsure : host.Sure) :
    Panics (createRegion strict host start size info) s := by
  exact .step (callHost_of_true _ (hsure _)) (.step rfl (.bind (arithmetic_panics hover) _))

theorem placeInfo_panics (ho : hole.Outside start.val) (hnext : 2 ^ 64 ≤ hole.next start.val info.bytes)
    (hsure : host.Sure) : Panics (placeInfo strict host start info) s := by
  refine .step (okOr_of_some (checkedShl_eq info)) ?_
  by_cases hfits : start.val + info.bytes < 2 ^ 64
  · -- the memory above the hole is what goes too far
    have hw : ¬ hole.Whole start.val info.bytes := by
      intro hw
      rw [Hole.next, if_pos hw] at hnext
      omega
    rw [Hole.next, if_neg hw] at hnext
    have hstart := Hole.le_of_not_whole ho hw
    have hbelow := Hole.below_le (h := hole) start.val
    refine .step (clearOfHole_of_fits hfits) ?_
    simp only [hw, decide_false, if_false, Bool.false_eq_true]
    refine .after (createBelow_safe hstart.1 fun _ => hsure) ?_
    rintro ⟨below, belowSize⟩ s2 ⟨_, hsize, _⟩
    refine .step (okOr_of_some (checkedSub_of_le (y := belowSize) ?_)) (.bind (createRegion_panics ?_ hsure) _)
    · rw [hsize]
      exact Nat.le_trans hbelow (Nat.le_of_lt hstart.2)
    · have hhi : (Fin.ofNat (2 ^ 64) (mmioLowEnd + 1)).val = hole.hi := by decide
      show _ ≤ _ + (info.bytes - belowSize.val)
      rwa [hhi, hsize]
  · have hover : 2 ^ 64 ≤ start.val + (⟨info.bytes, bytes_lt info⟩ : U64).val := Nat.le_of_not_lt hfits
    by_cases hgt : start.val > mmioLowEnd
    · refine .step (a := true) (t := s) ?_ (.bind (createRegion_panics hover hsure) _)
      rw [clearOfHole, if_pos hgt]
      rfl
    · refine .bind ?_ _
      rw [clearOfHole, if_neg hgt]
      exact .bind (arithmetic_panics hover) _

theorem placeInfos_panics (ho : hole.Outside start.val)
    (hfinal : 2 ^ 64 ≤ hole.final start.val (infos.map NumaRegionInfo.bytes)) (hsure : host.Sure) :
    Panics (placeInfos strict host start infos) s := by
  induction infos generalizing start s with
  | nil => exact absurd hfinal (Nat.not_le_of_lt start.isLt)
  | cons info rest ih =>
    by_cases hnext : hole.next start.val info.bytes < 2 ^ 64
    · have hout := Hole.next_outside (h := hole) start.val info.bytes
      refine .after (placeInfo_safe ho hnext fun _ => hsure) ?_
      rintro ⟨regions, next⟩ s1 ⟨_, hval, _⟩
      dsimp only at hval ⊢
      rw [← hval] at hout
      exact .bind (ih hout (hval ▸ hfinal)) _
    · exact .bind (placeInfo_panics ho (Nat.le_of_not_lt hnext) hsure) _

/-! ### The regions -/

/-- Where the regions are. -/
def spans (regions : List AddressSpaceRegion) : List (Nat × Nat) := regions.map fun r => (r.base.val, r.size.val)

theorem spans_pieces {start : Nat} (ho : hole.Outside start) (hnext : hole.next start info.bytes < 2 ^ 64) :
    spans ((hole.pieces start info.bytes).map info.region) = hole.pieces start info.bytes := by
  rw [spans, List.map_map]
  refine (List.map_congr_left ?_).trans (List.map_id _)
  intro p hp
  have hb := Hole.pieces_bounds ho hp
  have h1 : p.1 % 2 ^ 64 = p.1 := Nat.mod_eq_of_lt (by omega)
  have h2 : p.2 % 2 ^ 64 = p.2 := Nat.mod_eq_of_lt (by omega)
  exact Prod.ext h1 h2

theorem next_lt {start : Nat} {rest : List NumaRegionInfo}
    (hfinal : hole.final start ((info :: rest).map NumaRegionInfo.bytes) < 2 ^ 64) :
    hole.next start info.bytes < 2 ^ 64 :=
  Nat.lt_of_le_of_lt (Hole.le_final (Hole.next_outside _ _) _) hfinal

theorem spans_groups {start : Nat} (ho : hole.Outside start)
    (hfinal : hole.final start (infos.map NumaRegionInfo.bytes) < 2 ^ 64) :
    (groups start infos).map spans = hole.place start (infos.map NumaRegionInfo.bytes) := by
  induction infos generalizing start with
  | nil => rfl
  | cons info rest ih =>
    rw [groups, List.map_cons, spans_pieces ho (next_lt hfinal), ih (Hole.next_outside _ _) hfinal]
    rfl

theorem spans_laid {start : Nat} (ho : hole.Outside start)
    (hfinal : hole.final start (infos.map NumaRegionInfo.bytes) < 2 ^ 64) :
    spans (laid start infos) = (hole.place start (infos.map NumaRegionInfo.bytes)).flatten := by
  rw [← spans_groups ho hfinal, laid, spans, List.map_flatten]
  rfl

/-- The sizes of an entry's regions add up to what it asks for. -/
theorem sum_groups {start : Nat} (ho : hole.Outside start)
    (hfinal : hole.final start (infos.map NumaRegionInfo.bytes) < 2 ^ 64)
    (hexact : ∀ info ∈ infos, info.bytes = info.wanted) :
    List.Forall₂ (fun info group => (group.map fun r : AddressSpaceRegion => r.size.val).sum = info.wanted)
      infos (groups start infos) := by
  induction infos generalizing start with
  | nil => exact .nil
  | cons info rest ih =>
    have hrest := ih (Hole.next_outside _ _) hfinal fun info hin => hexact info (List.mem_cons_of_mem _ hin)
    refine .cons ?_ hrest
    have hsum : ((hole.pieces start info.bytes).map Prod.snd).sum = info.bytes := Hole.sum_pieces ho
    rw [← spans_pieces ho (next_lt hfinal), spans, List.map_map] at hsum
    exact hsum.trans (hexact info List.mem_cons_self)

theorem ty_laid {start : Nat} {r : AddressSpaceRegion} (hr : r ∈ laid start infos) : r.ty = .defaultMemory := by
  induction infos generalizing start with
  | nil => cases hr
  | cons info rest ih =>
    rw [laid, groups, List.flatten_cons, List.mem_append] at hr
    rcases hr with hr | hr
    · obtain ⟨p, _, rfl⟩ := List.mem_map.mp hr
      rfl
    · exact ih hr

end Place

/-! ## Mapping -/

section Map

open ResourceManager

variable {b : Build} {host : Host} {l : Layout} {s : State} {c : Prop} {r : AddressSpaceRegion}

def Spans (r : AddressSpaceRegion) (x : Nat) : Prop := r.base.val ≤ x ∧ x < r.base.val + r.size.val

/-- There are `n` free slots. -/
def HasSlots (n : Nat) (m : ResourceManager) : Prop :=
  ∃ ids : Finset Nat, n ≤ ids.card ∧ ∀ x ∈ ids, x ∈ freeIds m.kvmMemSlotPool

structure Mappable (l : Layout) (s : State) : Prop where
  orderly : Orderly l s.resMgr
  bounded : ∀ x ∈ freeIds s.resMgr.memPool, x ≤ l.guestMemEnd

variable {m : ResourceManager}

theorem callResMgr_of_ok {α : Type} {call : ResourceManager → Except Panic (α × ResourceManager)} {a : α}
    (h : call s.resMgr = .ok (a, m)) :
    callResMgr call s = .ok (.ok a, { s with resMgr := m }) := by rw [callResMgr, h]

theorem lastAddr_of_fits (hpos : 0 < r.size.val) (hfits : r.base.val + r.size.val < 2 ^ 64) :
    lastAddr b r s = .ok (.ok (r.base.val + r.size.val - 1), s) := by
  have hend : (decide (r.size.val > 0) && r.checkedEnd.isSome) = true := by
    rw [AddressSpaceRegion.checkedEnd, if_pos (by simp only [u64Max]; omega)]
    simpa using hpos
  unfold lastAddr
  simp only [hend, Bool.not_true, Bool.and_false, Bool.false_eq_true, if_false]
  exact (bind_of_ok (arithmetic_add hfits) _).trans (arithmetic_of_ok (subU64_of_le (by omega)))

/-- The constraint for a region of the guest memory. -/
def regionConstraint (r : AddressSpaceRegion) : Constraint :=
  { Constraint.new r.size with min := r.base, max := Fin.ofNat _ (r.base.val + r.size.val - 1) }

theorem fit_regionConstraint (hpos : 0 < r.size.val) (hfits : r.base.val + r.size.val < 2 ^ 64) {free : Set Nat}
    {x : Nat} : Fit free (regionConstraint r) x ↔ x = r.base.val ∧ ∀ y, Spans r y → y ∈ free := by
  have hmax : ((regionConstraint r).max : Nat) = r.base.val + r.size.val - 1 := Nat.mod_eq_of_lt (by omega)
  have hsize : ((regionConstraint r).size : Nat) = r.size.val := rfl
  have hmin : ((regionConstraint r).min : Nat) = r.base.val := rfl
  constructor
  · intro h
    have h1 := h.min_le
    have h2 := h.le_max
    have hx : x = r.base.val := by omega
    refine ⟨hx, ?_⟩
    rintro y ⟨hle, hlt⟩
    have hfree := h.free (y - x) (by omega)
    rwa [Nat.add_sub_cancel' (by omega)] at hfree
  · rintro ⟨rfl, hfree⟩
    refine ⟨by omega, by omega, by omega, aligned_one _, ?_⟩
    intro i hi
    exact hfree _ ⟨by omega, by omega⟩

/-- The addresses of a region are allocated if all of them are free. -/
theorem allocateMem_region (checks : Bool) (ho : Orderly l m) (hpos : 0 < r.size.val)
    (hfits : r.base.val + r.size.val < 2 ^ 64) :
    ∃ key m', m.allocateMemAddress checks (regionConstraint r) = .ok (key, m') ∧
      (key = none ∧ ¬ (∀ x, Spans r x → x ∈ freeIds m.memPool) ∨
        (∃ base, key = some base) ∧ (∀ x, Spans r x → x ∈ freeIds m.memPool) ∧ Orderly l m' ∧
          m'.kvmMemSlotPool = m.kvmMemSlotPool ∧
          ∀ x, x ∈ freeIds m'.memPool ↔ x ∈ freeIds m.memPool ∧ ¬ Spans r x) := by
  rcases take_spec checks ho .mem (regionConstraint r) false with ⟨hnone, hno⟩ | ⟨x, m', hsome, htook⟩
  · refine ⟨none, m, by rw [allocateMemAddress, hnone]; rfl, .inl ⟨rfl, fun hfree => hno r.base.val ?_⟩⟩
    exact (fit_regionConstraint hpos hfits).mpr ⟨rfl, hfree⟩
  · obtain ⟨rfl, hfree⟩ := (fit_regionConstraint hpos hfits).mp htook.least.1
    refine ⟨_, m', by rw [allocateMemAddress, hsome]; rfl, .inr ⟨⟨_, rfl⟩, hfree, htook.orderly, ?_, ?_⟩⟩
    · exact (htook.other nofun : m'.pool .kvmMemSlot = m.pool .kvmMemSlot)
    · intro y
      have hset : freeIds m'.memPool = _ := htook.free
      rw [hset]
      refine and_congr Iff.rfl (not_congr ?_)
      show r.base.val ≤ y ∧ y ≤ r.base.val + r.size.val - 1 ↔ _
      unfold Spans
      omega

theorem HasSlots.exists_fit {n : Nat} (h : HasSlots (n + 1) m) (ho : Orderly l m) :
    ∃ x, Fit (freeIds m.kvmMemSlotPool) (Constraint.new (ofU32 1)) x := by
  obtain ⟨ids, hcard, hids⟩ := h
  obtain ⟨x, hx⟩ := Finset.card_pos.mp (Nat.lt_of_lt_of_le (Nat.succ_pos n) hcard)
  have hfree := hids x hx
  have hbound := ((ho .kvmMemSlot).managed x (freeIds_subset _ hfree)).2
  have hlt := hi_lt l .kvmMemSlot
  have hsize : ((Constraint.new (ofU32 1)).size : Nat) = 1 := rfl
  have hmax : ((Constraint.new (ofU32 1)).max : Nat) = u64Max := rfl
  refine ⟨x, by omega, Nat.zero_le _, by omega, aligned_one _, ?_⟩
  intro i hi
  obtain rfl : i = 0 := by omega
  exact hfree

theorem allocateKvmMemSlot_spec (checks : Bool) (ho : Orderly l m) :
    ∃ slot m', m.allocateKvmMemSlot checks 1 none = .ok (slot, m') ∧ Orderly l m' ∧ m'.memPool = m.memPool ∧
      (HasSlots 1 m → ∃ v, slot = some v) ∧ ∀ n, HasSlots (n + 1) m → HasSlots n m' := by
  rcases take_spec checks ho .kvmMemSlot (Constraint.new (ofU32 1)) true with ⟨hnone, hno⟩ | ⟨x, m', hsome, htook⟩
  · refine ⟨none, m, by rw [allocateKvmMemSlot, hnone]; rfl, ho, rfl, ?_, ?_⟩
    · intro h
      obtain ⟨x, hx⟩ := h.exists_fit ho
      exact absurd hx (hno x)
    · intro n h
      obtain ⟨x, hx⟩ := h.exists_fit ho
      exact absurd hx (hno x)
  · refine ⟨_, m', by rw [allocateKvmMemSlot, hsome]; rfl, htook.orderly,
      (htook.other nofun : m'.pool .mem = m.pool .mem), fun _ => ⟨_, rfl⟩, ?_⟩
    rintro n ⟨ids, hcard, hids⟩
    refine ⟨ids.erase x, ?_, ?_⟩
    · have := Finset.pred_card_le_card_erase (s := ids) (a := x)
      omega
    · intro y hy
      obtain ⟨hne, hmem⟩ := Finset.mem_erase.mp hy
      have hset : freeIds m'.kvmMemSlotPool = _ := htook.free
      rw [hset]
      refine ⟨hids y hmem, ?_⟩
      rintro ⟨h1, h2⟩
      have h2 : y ≤ x + 1 - 1 := h2
      have h1 : x ≤ y := h1
      omega

theorem mapToKvm_safe (ho : Orderly l s.resMgr) (hc : c → host.Sure ∧ HasSlots 1 s.resMgr) :
    Safe c (mapToKvm b host r) s fun _ s' => Orderly l s'.resMgr ∧ s'.resMgr.memPool = s.resMgr.memPool ∧
      ∀ n, HasSlots (n + 1) s.resMgr → HasSlots n s'.resMgr := by
  obtain ⟨slot, m, hcall, ho', hmem, hsome, hslots⟩ := allocateKvmMemSlot_spec b.overflowChecks ho
  have hsure : c → host.Sure := fun h => (hc h).1
  refine .step (callResMgr_of_ok hcall) ?_
  refine (Safe.okOr (fun h => hsome (hc h).2) (Q := fun _ s' => s'.resMgr = m) fun _ _ => rfl).bind ?_
  rintro v s2 rfl
  refine .ite (fun _ => ?_) fun _ => .of_ok rfl ⟨ho', hmem, hslots⟩
  exact callHost_bind _ hsure (callHost_bind _ hsure (.of_ok rfl ⟨ho', hmem, hslots⟩))

theorem mapRegion_safe (h : Mappable l s) (hpos : 0 < r.size.val) (hfits : r.base.val + r.size.val < 2 ^ 64)
    (hc : c → host.Sure ∧ (∀ x, Spans r x → x ∈ freeIds s.resMgr.memPool) ∧ HasSlots 1 s.resMgr) :
    Safe c (mapRegion b host r) s fun _ s' => Mappable l s' ∧ (∀ x, Spans r x → x ∈ freeIds s.resMgr.memPool) ∧
      (∀ x, x ∈ freeIds s'.resMgr.memPool ↔ x ∈ freeIds s.resMgr.memPool ∧ ¬ Spans r x) ∧
      ∀ n, HasSlots (n + 1) s.resMgr → HasSlots n s'.resMgr := by
  have hsure : c → host.Sure := fun h => (hc h).1
  obtain ⟨key, m, hcall, hkey⟩ := allocateMem_region b.overflowChecks h.orderly hpos hfits
  refine .step (lastAddr_of_fits hpos hfits) (.step (callResMgr_of_ok hcall) ?_)
  rcases hkey with ⟨rfl, hno⟩ | ⟨⟨base, rfl⟩, hfree, ho, hkvm, hids⟩
  · -- without the addresses there is an error
    refine (Safe.okOr (fun h => absurd (hc h).2.1 hno) (Q := fun _ _ => False) nofun).bind fun _ _ => False.elim
  · have hslots : ∀ n, HasSlots n s.resMgr → HasSlots n m := by
      unfold HasSlots
      rw [hkvm]
      exact fun _ h => h
    refine .step (okOr_of_some rfl) (callHost_bind _ hsure (callHost_bind _ hsure ?_))
    refine (mapToKvm_safe ho fun h => ⟨hsure h, hslots 1 (hc h).2.2⟩).mono ?_
    rintro _ s' ⟨ho', hmem, hslots'⟩
    rw [hmem]
    refine ⟨⟨ho', ?_⟩, hfree, hids, fun n hn => hslots' n (hslots (n + 1) hn)⟩
    intro x hx
    rw [hmem] at hx
    exact h.bounded x ((hids x).mp hx).1

/-- Regions that can be mapped: each has a size and an end. -/
def Sized (r : AddressSpaceRegion) : Prop := 0 < r.size.val ∧ r.base.val + r.size.val < 2 ^ 64

theorem mapRegions_safe {regions : List AddressSpaceRegion} (h : Mappable l s) (hsized : ∀ r ∈ regions, Sized r)
    (hapart : regions.Pairwise fun r r' => ∀ x, Spans r x → ¬ Spans r' x)
    (hc : c → host.Sure ∧ (∀ r ∈ regions, ∀ x, Spans r x → x ∈ freeIds s.resMgr.memPool) ∧
      HasSlots regions.length s.resMgr) :
    Safe c (mapRegions b host regions) s fun _ s' => Mappable l s' ∧
      ∀ r ∈ regions, r.base.val + r.size.val ≤ l.guestMemEnd + 1 := by
  induction regions generalizing s with
  | nil => exact .pure ⟨h, nofun⟩
  | cons r rest ih =>
    obtain ⟨hpos, hfits⟩ := hsized r List.mem_cons_self
    obtain ⟨hhead, htail⟩ := List.pairwise_cons.mp hapart
    have hone : c → host.Sure ∧ (∀ x, Spans r x → x ∈ freeIds s.resMgr.memPool) ∧ HasSlots 1 s.resMgr := by
      intro hc'
      obtain ⟨hsure, hfree, ids, hcard, hids⟩ := hc hc'
      refine ⟨hsure, hfree r List.mem_cons_self, ids, ?_, hids⟩
      rw [List.length_cons] at hcard
      omega
    refine (mapRegion_safe h hpos hfits hone).bind ?_
    rintro _ s1 ⟨h1, hfree, hids, hslots⟩
    have hend : r.base.val + r.size.val ≤ l.guestMemEnd + 1 := by
      have := h.bounded _ (hfree (r.base.val + r.size.val - 1) ⟨by omega, by omega⟩)
      omega
    have hrest := ih h1 (fun r' hr' => hsized r' (List.mem_cons_of_mem _ hr')) htail ?_
    · refine hrest.mono ?_
      rintro _ s2 ⟨h2, hends⟩
      refine ⟨h2, ?_⟩
      intro r' hr'
      rcases List.mem_cons.mp hr' with rfl | hr'
      · exact hend
      · exact hends r' hr'
    · intro hc'
      obtain ⟨hsure, hall, hn⟩ := hc hc'
      refine ⟨hsure, ?_, hslots _ hn⟩
      intro r' hr' x hx
      exact (hids x).mpr ⟨hall r' (List.mem_cons_of_mem _ hr') x hx, fun hrx => hhead r' hr' x hrx hx⟩

end Map

/-! ## The guest memory -/

/-- Where the memory of all entries ends. -/
def memoryEnd (infos : List NumaRegionInfo) : Nat := hole.final 0 (infos.map NumaRegionInfo.wanted)

/-- The regions are the guest memory that the entries ask for. -/
structure GuestMemory (infos : List NumaRegionInfo) (regions : List AddressSpaceRegion) : Prop where
  ordered : regions.Pairwise fun a b => a.base.val < b.base.val
  apart : regions.Pairwise fun a b => ∀ x, Spans a x → ¬ Spans b x
  clear : ∀ r ∈ regions, ∀ x, Spans r x → ¬ (mmioLowStart ≤ x ∧ x ≤ mmioLowEnd)
  sizes : ∃ groups, groups.flatten = regions ∧
    List.Forall₂ (fun info group => (group.map fun r : AddressSpaceRegion => r.size.val).sum = info.size.val * 2 ^ 20)
      infos groups

/-- The conversion to bytes is exact where it gives a value. -/
def ExactBytes (infos : List NumaRegionInfo) : Prop :=
  ∀ info ∈ infos, ∀ size, checkedShl info.size 20 = some size → size.val = info.size.val * 2 ^ 20

/-- A manager of a layout, after any calls. -/
def Reached (l : Layout) (m : ResourceManager) : Prop :=
  ∃ checks maxKvmMemSlot m0 calls, ∃ s : ResourceManager.Owned, ResourceManager.new checks l maxKvmMemSlot = .ok m0 ∧
    Run (ResourceManager.Owned.Step checks l) ⟨m0, [], []⟩ calls s ∧ s.manager = m

/-- No size loses bits, and whatever the build and the host are, an error is returned or the guest
memory is made. That nothing panics where overflows are checked says that no sum overflows in any
build. -/
def Correct (l : Layout) (infos : List NumaRegionInfo) : Prop :=
  ExactBytes infos ∧ ∀ (b : Build) (host : Host) (s : State), Reached l s.resMgr →
    ∃ result s', createAddressSpace b host l infos s = .ok (result, s') ∧
      (result = .ok () → ∃ space, s'.mgr.addressSpace = some space ∧ GuestMemory infos space.state.regions)

section Create

open ResourceManager

variable {b : Build} {host : Host} {l : Layout} {s : State} {infos : List NumaRegionInfo} {r : AddressSpaceRegion}

/-- Where the regions of all entries end. -/
abbrev laidEnd (infos : List NumaRegionInfo) : Nat := hole.final 0 (infos.map NumaRegionInfo.bytes)

theorem bytes_of_end (h : memoryEnd infos < 2 ^ 64) : ∀ info ∈ infos, info.bytes = info.wanted := by
  intro info hin
  have hle := Hole.add_le_final hole_outside_zero (List.mem_map_of_mem (f := NumaRegionInfo.wanted) hin)
  exact Nat.mod_eq_of_lt (Nat.lt_of_le_of_lt (Nat.le_trans (Nat.le_add_left _ _) hle) h)

theorem final_bytes (h : ∀ info ∈ infos, info.bytes = info.wanted) : laidEnd infos = memoryEnd infos := by
  rw [laidEnd, memoryEnd, List.map_congr_left h]

theorem exactBytes_iff : ExactBytes infos ↔ ∀ info ∈ infos, info.bytes = info.wanted := by
  constructor
  · intro h info hin
    exact h info hin _ (checkedShl_eq info)
  · intro h info hin size hsize
    rw [checkedShl_eq info] at hsize
    cases hsize
    exact h info hin

theorem Reached.mappable (h : Reached l s.resMgr) : Mappable l s := by
  obtain ⟨checks, slots, m0, calls, o, hnew, hrun, hm⟩ := h
  have hkept := Owned.kept_run hnew hrun
  refine ⟨hm ▸ hkept.orderly, ?_⟩
  intro x hx
  rw [← hm] at hx
  exact (hkept.placed.mem x (freeIds_subset _ hx)).1

theorem Reached.of_new {checks : Bool} {slots : Option U64} {m : ResourceManager} (h : new checks l slots = .ok m) :
    Reached l m := ⟨checks, slots, m, [], _, h, .nil, rfl⟩

/-- `is_region_valid` compares the end, which is not part of the region, with the last address of
the memory. -/
theorem isRegionValid_iff (hty : r.ty = .defaultMemory) (hfits : r.base.val + r.size.val < 2 ^ 64) :
    (addressSpaceLayout l).isRegionValid r = true ↔ r.base.val + r.size.val ≤ l.guestMemEnd := by
  have hle : r.base.val + r.size.val ≤ u64Max := by
    simp only [u64Max]
    omega
  have hmem : (addressSpaceLayout l).memEnd.val = l.guestMemEnd := by
    have hend := guestMemEnd_eq l
    have hlt := guestPhysEnd_lt l
    exact Nat.mod_eq_of_lt (by omega)
  have hstart : ¬ r.base < (addressSpaceLayout l).memStart := Nat.not_lt_zero _
  rw [AddressSpaceLayout.isRegionValid, AddressSpaceRegion.checkedEnd, if_pos hle, hty]
  simp [hmem, hstart]

section Laid

variable (hfinal : laidEnd infos < 2 ^ 64) (hpos : ∀ info ∈ infos, 0 < info.bytes)
include hfinal

theorem mem_laid (hr : r ∈ laid 0 infos) :
    (r.base.val, r.size.val) ∈ (hole.place 0 (infos.map NumaRegionInfo.bytes)).flatten := by
  rw [← spans_laid hole_outside_zero hfinal]
  exact List.mem_map.mpr ⟨r, hr, rfl⟩

theorem laid_bounds (hr : r ∈ laid 0 infos) :
    r.base.val + r.size.val ≤ laidEnd infos ∧
      hole.Clear (r.base.val, r.size.val) := (Hole.place_bounds hole_outside_zero (mem_laid hfinal hr)).2

theorem laid_clear (hr : r ∈ laid 0 infos) {x : Nat} (hx : Spans r x) : ¬ (mmioLowStart ≤ x ∧ x ≤ mmioLowEnd) := by
  obtain ⟨hge, hlt⟩ := hx
  rintro ⟨hlo, hhi⟩
  rcases (laid_bounds hfinal hr).2 with hbelow | habove
  · have hbelow : r.base.val + r.size.val ≤ mmioLowStart := hbelow
    omega
  · have habove : mmioLowEnd + 1 ≤ r.base.val := habove
    omega

theorem laid_behind : (laid 0 infos).Pairwise fun a b => a.base.val + a.size.val ≤ b.base.val := by
  have h := Hole.place_behind hole_outside_zero (infos.map NumaRegionInfo.bytes)
  rw [← spans_laid hole_outside_zero hfinal] at h
  exact List.pairwise_map.mp h

theorem laid_apart : (laid 0 infos).Pairwise fun a b => ∀ x, Spans a x → ¬ Spans b x := by
  refine (laid_behind hfinal).imp ?_
  rintro a b hle x ⟨_, hlt⟩ ⟨hge, _⟩
  omega

theorem exists_last (hne : infos ≠ []) : ∃ r ∈ laid 0 infos, r.base.val + r.size.val = laidEnd infos := by
  have hne' : infos.map NumaRegionInfo.bytes ≠ [] := fun h => hne (List.map_eq_nil_iff.mp h)
  obtain ⟨p, hp, heq⟩ := Hole.exists_piece_final (h := hole) 0 hne'
  rw [← spans_laid hole_outside_zero hfinal] at hp
  obtain ⟨r, hr, rfl⟩ := List.mem_map.mp hp
  exact ⟨r, hr, heq⟩

include hpos

omit hfinal in
theorem bytes_map_pos : ∀ size ∈ infos.map NumaRegionInfo.bytes, 0 < size := by
  intro size hsize
  obtain ⟨info, hin, rfl⟩ := List.mem_map.mp hsize
  exact hpos info hin

theorem laid_pos (hr : r ∈ laid 0 infos) : 0 < r.size.val :=
  Hole.place_pos hole_outside_zero hole_split_pos (bytes_map_pos hpos) (mem_laid hfinal hr)

theorem laid_sized : ∀ r ∈ laid 0 infos, Sized r := by
  intro r hr
  exact ⟨laid_pos hfinal hpos hr, Nat.lt_of_le_of_lt (laid_bounds hfinal hr).1 hfinal⟩

theorem laid_ordered : (laid 0 infos).Pairwise fun a b => a.base.val < b.base.val := by
  refine List.Pairwise.imp_of_mem ?_ (laid_behind hfinal)
  intro a b ha _ hle
  have := laid_pos hfinal hpos ha
  omega

theorem laid_length_le : (laid 0 infos).length ≤ laidEnd infos := by
  have hle := Hole.place_length_le hole_outside_zero hole_split_pos (bytes_map_pos hpos)
  rwa [← spans_laid hole_outside_zero hfinal, spans, List.length_map, Nat.zero_add] at hle

theorem sort_laid (S : SortByBase) : S.sort (laid 0 infos) = laid 0 infos := by
  have hordered := laid_ordered hfinal hpos
  have hnodup : ((laid 0 infos).map fun r => r.base).Nodup := by
    refine List.pairwise_map.mpr (hordered.imp ?_)
    intro a b hlt heq
    rw [heq] at hlt
    exact Nat.lt_irrefl _ hlt
  refine List.Perm.eq_of_pairwise ?_ (S.sorted _) (hordered.imp Nat.le_of_lt) (S.perm _)
  intro a b ha hb hle hge
  exact List.inj_on_of_nodup_map hnodup ((S.perm _).mem_iff.mp ha) hb (Fin.le_antisymm hle hge)

theorem fromRegions_laid (S : SortByBase) (hle : laidEnd infos ≤ l.guestMemEnd) :
    AddressSpace.fromRegions S (laid 0 infos) (addressSpaceLayout l) = .ok ⟨laid 0 infos, addressSpaceLayout l⟩ := by
  have hok : AddressSpaceBase.fromRegions S (laid 0 infos) (addressSpaceLayout l) =
      .ok ⟨laid 0 infos, addressSpaceLayout l⟩ := by
    rw [fromRegions_eq_ok, sort_laid hfinal hpos]
    refine ⟨⟨?_, neighbours_of_pairwise ?_⟩, rfl⟩
    · intro r hr
      have hbound := (laid_bounds hfinal hr).1
      exact (isRegionValid_iff (ty_laid hr) (by omega)).mpr (Nat.le_trans hbound hle)
    · refine List.Pairwise.imp_of_mem ?_ (laid_behind hfinal)
      intro x y hx hy hbehind
      have hx' := (laid_bounds hfinal hx).1
      have hy' := (laid_bounds hfinal hy).1
      refine Bool.eq_false_iff.mpr fun hint => ?_
      rw [intersectWith_iff (by simp only [u64Max]; omega) (by simp only [u64Max]; omega)] at hint
      omega
  rw [AddressSpace.fromRegions, hok]
  rfl

theorem fromRegions_laid_last (S : SortByBase) (hne : infos ≠ []) (hlt : l.guestMemEnd < laidEnd infos) :
    ∃ p, AddressSpace.fromRegions S (laid 0 infos) (addressSpaceLayout l) = .error p := by
  unfold AddressSpace.fromRegions
  cases h : AddressSpaceBase.fromRegions S (laid 0 infos) (addressSpaceLayout l) with
  | error p => exact ⟨p, rfl⟩
  | ok base =>
    obtain ⟨⟨hvalid, _⟩, _⟩ := fromRegions_eq_ok.mp h
    rw [sort_laid hfinal hpos] at hvalid
    obtain ⟨r, hr, heq⟩ := exists_last hfinal hne
    have := (isRegionValid_iff (ty_laid hr) (by omega)).mp (hvalid r hr)
    omega

theorem guestMemory_laid (hexact : ∀ info ∈ infos, info.bytes = info.wanted) : GuestMemory infos (laid 0 infos) where
  ordered := laid_ordered hfinal hpos
  apart := laid_apart hfinal
  clear := fun _ hr _ hx => laid_clear hfinal hr hx
  sizes := ⟨groups 0 infos, rfl, sum_groups hole_outside_zero hfinal hexact⟩

omit hpos in
theorem laid_free (hle : laidEnd infos ≤ l.guestMemEnd + 1) : ∀ r ∈ laid 0 infos, ∀ x, Spans r x → MemArea l x := by
  intro r hr x hx
  have hbound := (laid_bounds hfinal hr).1
  have hlt := hx.2
  exact ⟨by omega, laid_clear hfinal hr hx⟩

theorem createAddressSpace_safe {c : Prop} (hm : Mappable l s) (hne : laidEnd infos ≠ l.guestMemEnd + 1)
    (hc : c → host.Sure ∧ (∀ r ∈ laid 0 infos, ∀ x, Spans r x → x ∈ freeIds s.resMgr.memPool) ∧
      HasSlots (laid 0 infos).length s.resMgr) :
    Safe c (createAddressSpace b host l infos) s fun _ s' =>
      s'.mgr.addressSpace = some ⟨laid 0 infos, addressSpaceLayout l⟩ := by
  refine (placeInfos_safe hole_outside_zero hfinal fun h => (hc h).1).bind ?_
  rintro _ s1 ⟨rfl, h1⟩
  have hm1 : Mappable l s1 := ⟨h1 ▸ hm.orderly, h1 ▸ hm.bounded⟩
  rw [← h1] at hc
  refine (mapRegions_safe hm1 (laid_sized hfinal hpos) (laid_apart hfinal) hc).bind ?_
  rintro _ s2 ⟨_, hends⟩
  -- the addresses were all there, so the memory ends with the last of them at most
  have hle : laidEnd infos ≤ l.guestMemEnd := by
    by_cases hnil : infos = []
    · subst hnil
      exact Nat.zero_le _
    · obtain ⟨r, hr, heq⟩ := exists_last hfinal hnil
      have := hends r hr
      omega
  have hok := fromRegions_laid hfinal hpos host.sort hle
  exact .step (lift_of_ok (congrArg (Except.mapError SpacePanic.regions) hok)) (.of_ok rfl rfl)

end Laid

/-- All addresses are allocated before the last one is found to be invalid. -/
theorem createAddressSpace_last (ho : Orderly l s.resMgr) (hfree : ∀ x, x ∈ freeIds s.resMgr.memPool ↔ MemArea l x)
    (hslots : HasSlots (laid 0 infos).length s.resMgr) (hsure : host.Sure) (hpos : ∀ info ∈ infos, 0 < info.bytes)
    (heq : laidEnd infos = l.guestMemEnd + 1) : Panics (createAddressSpace b host l infos) s := by
  have hfinal : laidEnd infos < 2 ^ 64 := by
    have hend := guestMemEnd_eq l
    have hlt := guestPhysEnd_lt l
    omega
  have hne : infos ≠ [] := by
    rintro rfl
    cases heq
  refine .after (placeInfos_safe hole_outside_zero hfinal fun _ => hsure) ?_
  rintro _ s1 ⟨rfl, h1⟩
  rw [← h1] at ho hfree hslots
  have hm1 : Mappable l s1 := ⟨ho, fun x hx => ((hfree x).mp hx).1⟩
  have hmem : ∀ r ∈ laid 0 infos, ∀ x, Spans r x → x ∈ freeIds s1.resMgr.memPool :=
    fun r hr x hx => (hfree x).mpr (laid_free hfinal (Nat.le_of_eq heq) r hr x hx)
  refine .after (mapRegions_safe hm1 (laid_sized hfinal hpos) (laid_apart hfinal) fun _ => ⟨hsure, hmem, hslots⟩) ?_
  intro _ s2 _
  obtain ⟨p, hp⟩ := fromRegions_laid_last (l := l) hfinal hpos host.sort hne (by omega)
  exact .bind (.lift (congrArg (Except.mapError SpacePanic.regions) hp)) _

theorem bytes_pos (hsizes : ∀ info ∈ infos, 0 < info.size.val) (hexact : ∀ info ∈ infos, info.bytes = info.wanted) :
    ∀ info ∈ infos, 0 < info.bytes := by
  intro info hin
  rw [hexact info hin]
  exact Nat.mul_pos (hsizes info hin) (by decide)

theorem exists_manager (l : Layout) {n : Nat} (h : n + 1 < 2 ^ 64) :
    ∃ m, Reached l m ∧ Orderly l m ∧ (∀ x, x ∈ freeIds m.memPool ↔ MemArea l x) ∧ HasSlots n m := by
  have hn : (⟨n, by omega⟩ : U64).val < u64Max := by
    simp only [u64Max]
    omega
  obtain ⟨m, hnew, hfree, hslots⟩ := new_returns true l hn
  refine ⟨m, .of_new hnew, (new_ok hnew).1, hfree, Finset.range n, by simp, ?_⟩
  intro x hx
  exact (hslots x).mpr (Nat.le_of_lt (Finset.mem_range.mp hx))

/-- A host that does all that it is asked to. -/
def sureHost : Host := ⟨fun _ => true, true, stableSort⟩

theorem Correct.not_panics (h : Correct l infos) {m : ResourceManager} (hm : Reached l m) :
    ¬ Panics (createAddressSpace b host l infos) ⟨.default, m, 0⟩ := by
  rintro ⟨p, hp⟩
  obtain ⟨result, s', hrun, _⟩ := h.2 b host ⟨.default, m, 0⟩ hm
  rw [hp] at hrun
  cases hrun

/-- The memory is right, or an error is returned, exactly if it ends below `2 ^ 64` and not with
`GUEST_MEM_END`. -/
theorem createAddressSpace_correct_iff (l : Layout) (infos : List NumaRegionInfo)
    (hsizes : ∀ info ∈ infos, 0 < info.size.val) :
    Correct l infos ↔ memoryEnd infos < 2 ^ 64 ∧ memoryEnd infos ≠ l.guestMemEnd + 1 := by
  constructor
  · intro h
    have hexact := exactBytes_iff.mp h.1
    have hpos := bytes_pos hsizes hexact
    rw [← final_bytes hexact]
    constructor
    · by_contra hge
      obtain ⟨m, hm, _⟩ := exists_manager l (n := 0) (by decide)
      have hpanics : Panics (createAddressSpace strict sureHost l infos) ⟨.default, m, 0⟩ :=
        .bind (placeInfos_panics hole_outside_zero (Nat.le_of_not_lt hge) fun _ => rfl) _
      exact h.not_panics hm hpanics
    · intro heq
      have hend := guestMemEnd_eq l
      have hlt := guestPhysEnd_lt l
      have hfinal : laidEnd infos < 2 ^ 64 := by omega
      have hlength := laid_length_le hfinal hpos
      obtain ⟨m, hm, ho, hfree, hslots⟩ := exists_manager l (n := (laid 0 infos).length) (by omega)
      have hpanics : Panics (createAddressSpace strict sureHost l infos) ⟨.default, m, 0⟩ :=
        createAddressSpace_last ho hfree hslots (fun _ => rfl) hpos heq
      exact h.not_panics hm hpanics
  · rintro ⟨hlt, hne⟩
    have hexact := bytes_of_end hlt
    have hpos := bytes_pos hsizes hexact
    rw [← final_bytes hexact] at hlt hne
    refine ⟨exactBytes_iff.mpr hexact, ?_⟩
    intro b host s hreached
    obtain ⟨result, s', hrun, hspace, _⟩ := createAddressSpace_safe hlt hpos hreached.mappable hne False.elim
    exact ⟨result, s', hrun, fun h => ⟨_, hspace () h, guestMemory_laid hlt hpos hexact⟩⟩

/-- 1 GiB and 8 GiB, of which the second is split around the hole. -/
theorem createAddressSpace_correct_split :
    (∀ info ∈ ([⟨1024, none, none, []⟩, ⟨8192, none, none, []⟩] : List NumaRegionInfo), 0 < info.size.val) ∧
      Correct ⟨46, by decide, by decide⟩ [⟨1024, none, none, []⟩, ⟨8192, none, none, []⟩] := by
  have hsizes : ∀ info ∈ ([⟨1024, none, none, []⟩, ⟨8192, none, none, []⟩] : List NumaRegionInfo),
      0 < info.size.val := by
    intro info hin
    simp only [List.mem_cons, List.not_mem_nil, or_false] at hin
    rcases hin with rfl | rfl
    · decide
    · decide
  exact ⟨hsizes, (createAddressSpace_correct_iff _ _ hsizes).mpr ⟨by decide, by decide⟩⟩

/-- `2 ^ 44 + 1` MiB -/
def lostBits : NumaRegionInfo := ⟨0x100000000001, none, none, []⟩

/-- One MiB of it is left, and the call succeeds. -/
theorem lost_bits_accepted :
    ∃ m s' space, Reached ⟨46, by decide, by decide⟩ m ∧
      createAddressSpace strict sureHost ⟨46, by decide, by decide⟩ [lostBits] ⟨.default, m, 0⟩ = .ok (.ok (), s') ∧
      s'.mgr.addressSpace = some space ∧ ¬ GuestMemory [lostBits] space.state.regions := by
  have hfinal : laidEnd [lostBits] = 0x100000 := by decide
  obtain ⟨m, hm, _, hfree, hslots⟩ := exists_manager ⟨46, by decide, by decide⟩ (n := 1) (by decide)
  have hmem : ∀ r ∈ laid 0 [lostBits], ∀ x, Spans r x → x ∈ freeIds m.memPool :=
    fun r hr x hx => (hfree x).mpr (laid_free (by rw [hfinal]; decide) (by rw [hfinal]; decide) r hr x hx)
  have hmap : Mappable ⟨46, by decide, by decide⟩ ⟨.default, m, 0⟩ := Reached.mappable hm
  have hsafe : Safe True (createAddressSpace strict sureHost ⟨46, by decide, by decide⟩ [lostBits]) ⟨.default, m, 0⟩
      fun _ s' => s'.mgr.addressSpace = some ⟨laid 0 [lostBits], addressSpaceLayout ⟨46, by decide, by decide⟩⟩ :=
    createAddressSpace_safe (by rw [hfinal]; decide) (by decide) hmap (by rw [hfinal]; decide)
      fun _ => ⟨fun _ => rfl, hmem, hslots⟩
  obtain ⟨_, s', hrun, hspace⟩ := hsafe.returns trivial
  refine ⟨m, s', _, hm, hrun, hspace, ?_⟩
  rintro ⟨_, _, _, groups, hflat, hsizes⟩
  obtain ⟨group, rest, hsum, hrest, rfl⟩ := List.forall₂_cons_left_iff.mp hsizes
  obtain rfl := List.forall₂_nil_left_iff.mp hrest
  rw [List.flatten_singleton] at hflat
  rw [hflat] at hsum
  exact absurd hsum (by decide)

end Create

end Kata.Space
