import Kata.Devices.IoManager
import Kata.Lib.Runs

/-!
# Kata.Devices.IoDispatch

Who handles an I/O address, over whole runs of `register_device_io` and `unregister_device_io`.

The bookings are the ranges of the registrations that have succeeded, kept beside the manager. They
are meant to be disjoint, and an address to go to the device that has booked it (`Exclusive`). A
registration looks for its own bases only, and a lookup takes the nearest base below the address; so
a base inside a booked range, even that of an empty range, hides what is above it. `exclusive_iff`
says when all is well in one state, and `exclusive_always_iff` which calls keep it so.
-/

namespace Kata.Devices

open Allocator Resources Lib

variable {D : Type}

structure Booking (D : Type) where
  bus : IoManager.BusId
  range : IoRange
  device : D

structure Booked (D : Type) where
  manager : IoManager D
  booked : Set (Booking D)

inductive IoOp (D : Type) where
  | register (device : D) (resources : List Resource)
  | unregister (resources : List Resource)

namespace Booked

open IoManager

def new : Booked D := ⟨.new, ∅⟩

def bookings (device : D) (resources : List Resource) : Set (Booking D) :=
  {b | b.device = device ∧ ∃ res ∈ resources, ioRange res = some (b.bus, b.range)}

/-- Only a registration that has succeeded books its ranges. -/
def after (s : Booked D) (device : D) (resources : List Resource) : Except IoError Unit × IoManager D → Booked D
  | (.ok (), m) => ⟨m, s.booked ∪ bookings device resources⟩
  | (.error _, m) => ⟨m, s.booked⟩

def next (s : Booked D) : IoOp D → Booked D
  | .register device resources => s.after device resources (s.manager.registerDeviceIo device resources)
  | .unregister resources =>
    ⟨s.manager.unregisterDeviceIo resources, {b | b ∈ s.booked ∧ (b.bus, b.range.base) ∉ slots resources}⟩

/-! ## The property -/

/-- No address is booked twice, and an address goes to the device that has booked it. -/
structure Exclusive (s : Booked D) : Prop where
  disjoint : ∀ b ∈ s.booked, ∀ b' ∈ s.booked, b ≠ b' → b.bus = b'.bus →
    ∀ addr, ¬ (b.range.Has addr ∧ b'.range.Has addr)
  mmio : ∀ addr device base, s.manager.getMmioDevice addr = some (device, base) ↔
    ∃ b ∈ s.booked, b.bus = .mmio ∧ b.range.Has addr ∧ b.device = device ∧ b.range.base = base
  pio : ∀ addr device base, s.manager.getPioDevice addr = some (device, base) ↔
    ∃ b ∈ s.booked, b.bus = .pio ∧ b.range.Has (ofU16 addr) ∧ b.device = device ∧ b.range.base = ofU16 base

/-! ## The condition -/

/-- No base lies inside a range with another base. -/
def Apart (booked : Set (Booking D)) : Prop :=
  ∀ b ∈ booked, ∀ b' ∈ booked, b.bus = b'.bus → b.range.base < b'.range.base → ¬ b.range.Has b'.range.base

/-- If all bases of the list are new, the ranges are apart from each other and from what is booked.
Otherwise the first base that is taken, if it is booked, is booked for the same device, or the range
that is booked is empty. -/
def Careful (s : Booked D) : IoOp D → Prop
  | .register device resources =>
    (Fresh s.manager resources → Apart (s.booked ∪ bookings device resources)) ∧
      ∀ done res rest, resources = done ++ res :: rest → Fresh s.manager done →
        ∀ b ∈ s.booked, slot res = some (b.bus, b.range.base) → b.range.size = 0 ∨ b.device = device
  | .unregister _ => True

/-! ## One state -/

/-- The manager has an entry for every booking, and for nothing else. -/
structure Tracked (s : Booked D) : Prop where
  present : ∀ b ∈ s.booked, ∃ d, s.manager.entry (b.bus, b.range.base) = some (b.range.size, d)
  known : ∀ id base size d, s.manager.entry (id, base) = some (size, d) →
    ∃ b ∈ s.booked, b.bus = id ∧ b.range = ⟨base, size⟩
  unique : ∀ b ∈ s.booked, ∀ b' ∈ s.booked, b.bus = b'.bus → b.range.base = b'.range.base → b = b'
  ports : ∀ b ∈ s.booked, b.bus = .pio → b.range.base.val < 2 ^ 16

/-- The entries that can be asked have the device of the booking. -/
def Owned (s : Booked D) : Prop :=
  ∀ b ∈ s.booked, b.range.size ≠ 0 → s.manager.entry (b.bus, b.range.base) = some (b.range.size, b.device)

variable {s : Booked D} {id : BusId} {addr base : U64} {device : D} {resources : List Resource}

theorem IoRange.has_base {r : IoRange} (h : r.size ≠ 0) : r.Has r.base := by
  refine ⟨le_refl _, ?_⟩
  rw [Nat.sub_self]
  exact Nat.pos_of_ne_zero fun h0 => h (Fin.ext h0)

theorem IoRange.size_ne_of_has {r : IoRange} (h : r.Has addr) : r.size ≠ 0 := by
  intro h0
  have hlt := h.2
  rw [h0] at hlt
  exact Nat.not_lt_zero _ hlt

theorem lookup_of_floor {bus : Bus D} {size : U64} (h : floorEntry bus addr = some (base, size, device)) :
    bus.lookup addr = if addr.val - base.val < size.val then some (device, base) else none := by
  rw [Bus.lookup, h]

theorem lookup_iff (ht : Tracked s) (ha : Apart s.booked) (ho : Owned s) (id : BusId) :
    (s.manager.bus id).lookup addr = some (device, base) ↔
      ∃ b ∈ s.booked, b.bus = id ∧ b.range.Has addr ∧ b.device = device ∧ b.range.base = base := by
  constructor
  · intro h
    cases hf : floorEntry (s.manager.bus id) addr with
    | none =>
      rw [Bus.lookup, hf] at h
      cases h
    | some e =>
      obtain ⟨base', size, d⟩ := e
      rw [lookup_of_floor hf] at h
      split at h
      · rename_i hlt
        cases h
        obtain ⟨hentry, hle, _⟩ := floorEntry_eq_some.mp hf
        obtain ⟨b, hb, rfl, hrange⟩ := ht.known id base size device hentry
        have hhas : b.range.Has addr := by
          rw [hrange]
          exact ⟨hle, hlt⟩
        refine ⟨b, hb, rfl, hhas, ?_, by rw [hrange]⟩
        have hown := ho b hb (IoRange.size_ne_of_has hhas)
        rw [hrange] at hown
        rw [show s.manager.entry (b.bus, base) = some (size, device) from hentry] at hown
        cases hown
        rfl
      · cases h
  · rintro ⟨b, hb, rfl, hhas, rfl, rfl⟩
    have hown := ho b hb (IoRange.size_ne_of_has hhas)
    have hfloor : floorEntry (s.manager.bus b.bus) addr = some (b.range.base, b.range.size, b.device) := by
      refine floorEntry_eq_some.mpr ⟨hown, hhas.1, ?_⟩
      -- a base between the two would lie inside the range
      rintro base' ⟨size', d'⟩ hentry hle
      obtain ⟨b', hb', hbus, hrange⟩ := ht.known b.bus base' size' d' hentry
      by_contra hlt
      have hbase : b'.range.base = base' := by rw [hrange]
      refine ha b hb b' hb' hbus.symm (by rw [hbase]; exact not_le.mp hlt) ?_
      rw [hbase]
      refine ⟨le_of_lt (not_le.mp hlt), ?_⟩
      have h1 := hhas.2
      have h2 : base'.val ≤ addr.val := hle
      omega
    rw [lookup_of_floor hfloor, if_pos hhas.2]

/-- A port is an address below 2^16. -/
theorem getPioDevice_iff {port portBase : UInt16} {m : IoManager D} :
    m.getPioDevice port = some (device, portBase) ↔
      m.pioBus.lookup (ofU16 port) = some (device, ofU16 portBase) := by
  constructor
  · intro h
    obtain ⟨⟨d, base⟩, hl, heq⟩ := Option.map_eq_some_iff.mp h
    cases heq
    have hle : base ≤ ofU16 port := by
      cases hf : floorEntry m.pioBus (ofU16 port) with
      | none =>
        rw [Bus.lookup, hf] at hl
        cases hl
      | some e =>
        obtain ⟨base', size, d'⟩ := e
        rw [lookup_of_floor hf] at hl
        split at hl
        · cases hl
          exact (floorEntry_eq_some.mp hf).2.1
        · cases hl
    have hlt : base.val < 2 ^ 16 := Nat.lt_of_le_of_lt hle port.toNat_lt
    have hback : ofU16 (UInt16.ofNat base) = base := Fin.ext (UInt16.toNat_ofNat_of_lt' hlt)
    rw [hback]
    exact hl
  · intro h
    rw [getPioDevice, h]
    simp [ofU16]

theorem disjoint_of_apart (ht : Tracked s) (ha : Apart s.booked) :
    ∀ b ∈ s.booked, ∀ b' ∈ s.booked, b ≠ b' → b.bus = b'.bus →
      ∀ addr, ¬ (b.range.Has addr ∧ b'.range.Has addr) := by
  -- the greater base is inside the other range
  have hinside : ∀ {b b' : Booking D} {addr : U64}, b.range.base < b'.range.base → b.range.Has addr →
      b'.range.Has addr → b.range.Has b'.range.base := by
    intro b b' addr hlt h h'
    refine ⟨le_of_lt hlt, ?_⟩
    have h1 := h.2
    have h2 : b'.range.base.val ≤ addr.val := h'.1
    omega
  rintro b hb b' hb' hne hbus addr ⟨h, h'⟩
  rcases lt_trichotomy b.range.base b'.range.base with hlt | heq | hlt
  · exact ha b hb b' hb' hbus hlt (hinside hlt h h')
  · exact hne (ht.unique b hb b' hb' hbus heq)
  · exact ha b' hb' b hb hbus.symm hlt (hinside hlt h' h)

/-- What `Exclusive` says of both buses; only ports can be asked on the first one. -/
theorem Exclusive.lookup (h : Exclusive s) (hport : id = .pio → addr.val < 2 ^ 16) {b : Booking D}
    (hb : b ∈ s.booked) (hbus : b.bus = id) (hhas : b.range.Has addr) :
    (s.manager.bus id).lookup addr = some (b.device, b.range.base) := by
  cases id with
  | mmio => exact (h.mmio addr b.device b.range.base).mpr ⟨b, hb, hbus, hhas, rfl, rfl⟩
  | pio =>
    have hlt := hport rfl
    have hbase : b.range.base.val < 2 ^ 16 := Nat.lt_of_le_of_lt hhas.1 hlt
    have haddr : ofU16 (UInt16.ofNat addr) = addr := Fin.ext (UInt16.toNat_ofNat_of_lt' hlt)
    have hback : ofU16 (UInt16.ofNat b.range.base) = b.range.base :=
      Fin.ext (UInt16.toNat_ofNat_of_lt' hbase)
    have hget := (h.pio (UInt16.ofNat addr) b.device (UInt16.ofNat b.range.base)).mpr
      ⟨b, hb, hbus, by rw [haddr]; exact hhas, rfl, hback.symm⟩
    rw [getPioDevice_iff, haddr, hback] at hget
    exact hget

theorem exclusive_iff (ht : Tracked s) : Exclusive s ↔ Apart s.booked ∧ Owned s := by
  constructor
  · intro h
    refine ⟨?_, ?_⟩
    · intro b hb b' hb' hbus hlt hin
      -- the lookup of the inner base finds the inner entry
      have hget := h.lookup (ht.ports b' hb') hb hbus hin
      obtain ⟨d, hentry⟩ := ht.present b' hb'
      have hfloor : floorEntry (s.manager.bus b'.bus) b'.range.base =
        some (b'.range.base, b'.range.size, d) := floorEntry_self hentry
      rw [lookup_of_floor hfloor] at hget
      split at hget
      · have hbase := congrArg Prod.snd (Option.some.inj hget)
        exact ne_of_gt hlt hbase
      · cases hget
    · intro b hb hsize
      have hget := h.lookup (ht.ports b hb) hb rfl (IoRange.has_base hsize)
      obtain ⟨d, hentry⟩ := ht.present b hb
      have hfloor : floorEntry (s.manager.bus b.bus) b.range.base =
        some (b.range.base, b.range.size, d) := floorEntry_self hentry
      rw [lookup_of_floor hfloor] at hget
      split at hget
      · have hdevice : d = b.device := congrArg Prod.fst (Option.some.inj hget)
        rw [← hdevice]
        exact hentry
      · cases hget
  · rintro ⟨ha, ho⟩
    refine ⟨disjoint_of_apart ht ha, ?_, ?_⟩
    · intro addr device base
      exact lookup_iff ht ha ho .mmio
    · intro addr device base
      rw [getPioDevice_iff]
      exact lookup_iff ht ha ho .pio

/-! ## One call -/

theorem tracked_new : Tracked (new : Booked D) := by
  refine ⟨nofun, ?_, nofun, nofun⟩
  intro id base size d h
  cases id <;> simp [entry, new, IoManager.new, IoManager.bus] at h

theorem mem_slots {b : Booking D} (h : b ∈ bookings device resources) : (b.bus, b.range.base) ∈ slots resources := by
  obtain ⟨_, res, hres, hr⟩ := h
  exact List.mem_filterMap.mpr ⟨res, hres, slot_of_ioRange hr⟩

theorem range_of_nodup (h : (slots resources).Nodup) {res res' : Resource} {range range' : IoRange}
    (hres : res ∈ resources) (hres' : res' ∈ resources) (hr : ioRange res = some (id, range))
    (hr' : ioRange res' = some (id, range')) (hbase : range.base = range'.base) : range = range' := by
  induction resources with
  | nil => cases hres
  | cons r rest ih =>
    have hcons : slots (r :: rest) = (slot r).toList ++ slots rest := by
      cases hs : slot r <;> simp [slots, hs]
    rw [hcons, List.nodup_append] at h
    obtain ⟨_, hrest, hdis⟩ := h
    have hslot := slot_of_ioRange hr
    have hslot' := slot_of_ioRange hr'
    cases hres with
    | head =>
      cases hres' with
      | head =>
        rw [hr] at hr'
        cases hr'
        rfl
      | tail _ hres' =>
        refine absurd rfl (hdis (id, range.base) ?_ (id, range.base) ?_)
        · simp [hslot]
        · exact List.mem_filterMap.mpr ⟨res', hres', by rw [hslot', hbase]⟩
    | tail _ hres =>
      cases hres' with
      | head =>
        refine absurd rfl (hdis (id, range.base) ?_ (id, range.base) ?_)
        · simp [hslot', hbase]
        · exact List.mem_filterMap.mpr ⟨res, hres, hslot⟩
      | tail _ hres' => exact ih hrest hres hres'

section Added

variable {m' : IoManager D}

theorem Tracked.not_mem_slots (ht : Tracked s) (hf : Fresh s.manager resources) {b : Booking D}
    (hb : b ∈ s.booked) : (b.bus, b.range.base) ∉ slots resources := by
  intro hmem
  obtain ⟨d, hentry⟩ := ht.present b hb
  rw [hf.free _ hmem] at hentry
  cases hentry

theorem ioRange_port {res : Resource} {range : IoRange} (h : ioRange res = some (.pio, range)) :
    range.base.val < 2 ^ 16 := by
  cases res with
  | pioAddressRange base size =>
    cases h
    exact base.toNat_lt
  | _ => cases h

theorem Tracked.added (ht : Tracked s) (ha : Added s.manager device resources m') :
    Tracked ⟨m', s.booked ∪ bookings device resources⟩ := by
  refine ⟨?_, ?_, ?_, ?_⟩
  · rintro b (hb | hb)
    · rw [ha.old _ (ht.not_mem_slots ha.fresh hb)]
      exact ht.present b hb
    · obtain ⟨_, res, hres, hr⟩ := hb
      exact ⟨device, ha.new res hres _ _ hr⟩
  · intro id base size d hentry
    by_cases hmem : (id, base) ∈ slots resources
    · obtain ⟨res, hres, hs⟩ := List.mem_filterMap.mp hmem
      obtain ⟨⟨id', range⟩, hr, heq⟩ := Option.map_eq_some_iff.mp hs
      obtain ⟨rfl, rfl⟩ : id' = id ∧ range.base = base := Prod.mk.inj heq
      have hnew := (ha.new res hres _ _ hr).symm.trans hentry
      cases hnew
      exact ⟨⟨id', range, device⟩, .inr ⟨rfl, res, hres, hr⟩, rfl, rfl⟩
    · rw [show m'.entry (id, base) = _ from ha.old _ hmem] at hentry
      obtain ⟨b, hb, hbus, hrange⟩ := ht.known id base size d hentry
      exact ⟨b, .inl hb, hbus, hrange⟩
  · rintro b (hb | hb) b' (hb' | hb') hbus hbase
    · exact ht.unique b hb b' hb' hbus hbase
    · have hno := ht.not_mem_slots ha.fresh hb
      rw [hbus, hbase] at hno
      exact absurd (mem_slots hb') hno
    · have hno := ht.not_mem_slots ha.fresh hb'
      rw [← hbus, ← hbase] at hno
      exact absurd (mem_slots hb) hno
    · obtain ⟨hd, res, hres, hr⟩ := hb
      obtain ⟨hd', res', hres', hr'⟩ := hb'
      rw [← hbus] at hr'
      have hrange := range_of_nodup ha.fresh.nodup hres hres' hr hr' hbase
      cases b
      cases b'
      simp only at hbus hrange hd hd'
      rw [hbus, hrange, hd, hd']
  · rintro b (hb | hb) hbus
    · exact ht.ports b hb hbus
    · obtain ⟨_, res, _, hr⟩ := hb
      rw [hbus] at hr
      exact ioRange_port hr

theorem Owned.added (ht : Tracked s) (ho : Owned s) (ha : Added s.manager device resources m') :
    Owned ⟨m', s.booked ∪ bookings device resources⟩ := by
  rintro b (hb | hb) hsize
  · rw [show m'.entry (b.bus, b.range.base) = _ from ha.old _ (ht.not_mem_slots ha.fresh hb)]
    exact ho b hb hsize
  · obtain ⟨hd, res, hres, hr⟩ := hb
    rw [hd]
    exact ha.new res hres _ _ hr

end Added

section Put

variable {sl : BusId × U64} {size : U64} {old : D}

theorem Tracked.put (ht : Tracked s) (h : s.manager.entry sl = some (size, old)) :
    Tracked ⟨s.manager.put sl (size, device), s.booked⟩ := by
  refine ⟨?_, ?_, ht.unique, ht.ports⟩
  · intro b hb
    obtain ⟨d, hentry⟩ := ht.present b hb
    simp only [entry_put]
    split
    · rename_i hs
      rw [hs, h] at hentry
      cases hentry
      exact ⟨device, rfl⟩
    · exact ⟨d, hentry⟩
  · intro id base size' d hentry
    simp only [entry_put] at hentry
    split at hentry
    · rename_i hs
      cases hentry
      rw [← hs] at h
      exact ht.known id base size old h
    · exact ht.known id base size' d hentry

theorem Owned.put (ho : Owned s) (h : s.manager.entry sl = some (size, old))
    (hsame : ∀ b ∈ s.booked, sl = (b.bus, b.range.base) → b.range.size = 0 ∨ b.device = device) :
    Owned ⟨s.manager.put sl (size, device), s.booked⟩ := by
  intro b hb hsize
  simp only [entry_put]
  split
  · rename_i hs
    have hown := ho b hb hsize
    rw [hs, h] at hown
    cases hown
    rcases hsame b hb hs.symm with h0 | hd
    · exact absurd h0 hsize
    · rw [hd]
  · exact ho b hb hsize

end Put

theorem Tracked.unregister (ht : Tracked s) : Tracked (s.next (.unregister resources)) := by
  refine ⟨?_, ?_, ?_, ?_⟩
  · rintro b ⟨hb, hslot⟩
    simp only [next, entry_unregister, if_neg hslot]
    exact ht.present b hb
  · intro id base size d hentry
    simp only [next, entry_unregister] at hentry
    split at hentry
    · cases hentry
    · rename_i hslot
      obtain ⟨b, hb, rfl, hrange⟩ := ht.known id base size d hentry
      refine ⟨b, ⟨hb, ?_⟩, rfl, hrange⟩
      rw [hrange]
      exact hslot
  · rintro b ⟨hb, _⟩ b' ⟨hb', _⟩
    exact ht.unique b hb b' hb'
  · rintro b ⟨hb, _⟩
    exact ht.ports b hb

theorem Exclusive.unregister (ht : Tracked s) (h : Exclusive s) : Exclusive (s.next (.unregister resources)) := by
  obtain ⟨ha, ho⟩ := (exclusive_iff ht).mp h
  refine (exclusive_iff ht.unregister).mpr ⟨?_, ?_⟩
  · rintro b ⟨hb, _⟩ b' ⟨hb', _⟩
    exact ha b hb b' hb'
  · rintro b ⟨hb, hslot⟩ hsize
    simp only [next, entry_unregister, if_neg hslot]
    exact ho b hb hsize

theorem tracked_next (ht : Tracked s) (op : IoOp D) : Tracked (s.next op) := by
  cases op with
  | unregister resources => exact ht.unregister
  | register device resources =>
    have hreg := registerDeviceIo_registered s.manager device resources
    rw [next]
    generalize s.manager.registerDeviceIo device resources = out at hreg
    cases hreg with
    | ok ha => exact ht.added ha
    | repeated _ _ _ _ => exact ht
    | taken _ _ _ hentry => exact ht.put hentry

theorem not_fresh_of_taken {m : IoManager D} {done rest : List Resource} {res : Resource} {sl : BusId × U64}
    (hs : slot res = some sl) (h : sl ∈ slots done ∨ m.entry sl ≠ none) : ¬ Fresh m (done ++ res :: rest) := by
  intro hf
  have hslots : slots (done ++ res :: rest) = slots done ++ sl :: slots rest := by
    simp [slots, hs]
  rcases h with hmem | hentry
  · have hnodup := hf.nodup
    rw [hslots, List.nodup_append] at hnodup
    exact hnodup.2.2 sl hmem sl (.head _) rfl
  · refine hentry (hf.free sl ?_)
    rw [hslots]
    exact List.mem_append_right _ (.head _)

theorem exclusive_register_iff (ht : Tracked s) (h : Exclusive s) :
    Exclusive (s.next (.register device resources)) ↔ Careful s (.register device resources) := by
  have htn := tracked_next ht (.register device resources)
  obtain ⟨ha, ho⟩ := (exclusive_iff ht).mp h
  have hreg := registerDeviceIo_registered s.manager device resources
  constructor
  · intro hn
    obtain ⟨han, hon⟩ := (exclusive_iff htn).mp hn
    refine ⟨?_, ?_⟩
    · intro hf
      rw [next] at han
      generalize s.manager.registerDeviceIo device resources = out at hreg han
      cases hreg with
      | ok hadd => exact han
      | repeated hres _ hs hmem => exact absurd (hres ▸ hf) (not_fresh_of_taken hs (.inl hmem))
      | taken hres _ hs hentry =>
        exact absurd (hres ▸ hf) (not_fresh_of_taken hs (.inr (by rw [hentry]; exact Option.some_ne_none _)))
    · intro done res rest hres hf b hb hs
      by_cases hsize : b.range.size = 0
      · exact .inl hsize
      · -- the entry has the new device now
        have hown := ho b hb hsize
        have hcall : s.manager.registerDeviceIo device resources =
            (.error .deviceOverlap, s.manager.put (b.bus, b.range.base) (b.range.size, device)) := by
          rw [hres]
          exact (Added.nothing s.manager device).taken hf hs hown
        have hnew := hon b (by rw [next, hcall]; exact hb) hsize
        rw [next, hcall] at hnew
        simp only [after, entry_put, if_true] at hnew
        cases hnew
        exact .inr rfl
  · rintro ⟨hfresh, hsame⟩
    refine (exclusive_iff htn).mpr ?_
    rw [next]
    generalize s.manager.registerDeviceIo device resources = out at hreg
    cases hreg with
    | ok hadd => exact ⟨hfresh hadd.fresh, ho.added ht hadd⟩
    | repeated _ _ _ _ => exact ⟨ha, ho⟩
    | taken hres hf hs hentry =>
      refine ⟨ha, ho.put hentry ?_⟩
      intro b hb hsl
      exact hsame _ _ _ hres hf b hb (hsl ▸ hs)

theorem exclusive_next_iff (ht : Tracked s) (h : Exclusive s) (op : IoOp D) :
    Exclusive (s.next op) ↔ Careful s op := by
  cases op with
  | register device resources => exact exclusive_register_iff ht h
  | unregister resources => exact ⟨fun _ => trivial, fun _ => h.unregister ht⟩

/-! ## Runs -/

/-- Whatever calls are made, the manager has an entry for every booking and for nothing else. -/
theorem tracked_run (ops : List (IoOp D)) : Tracked (ops.foldl next new) := by
  refine ops.foldlRecOn next tracked_new ?_
  intro s ht op _
  exact tracked_next ht op

theorem exclusive_new : Exclusive (new : Booked D) :=
  (exclusive_iff tracked_new).mpr (by simp [Apart, Owned, new])

/-- Every state of a run is exclusive if and only if all its calls are careful. -/
theorem exclusive_always_iff (ops : List (IoOp D)) :
    Always next Exclusive new ops ↔ Throughout next Careful new ops := by
  refine always_iff (I := Tracked) ?_ ?_ tracked_new exclusive_new ops
  · intro s op ht
    exact tracked_next ht op
  · intro s op ht h
    exact exclusive_next_iff ht h op

/-- Device 2 registers a range inside that of device 1, and takes the addresses above it away, too. -/
theorem inner_range_hides :
    ∃ m m' : IoManager Nat,
      IoManager.new.registerDeviceIo 1 [.mmioAddressRange 0x1000 0x1000] = (.ok (), m) ∧
      m.registerDeviceIo 2 [.mmioAddressRange 0x1800 0x10] = (.ok (), m') ∧
      m'.getMmioDevice 0x1800 = some (2, 0x1800) ∧ m'.getMmioDevice 0x1900 = none :=
  ⟨_, _, rfl, rfl, by decide, by decide⟩

end Booked
end Kata.Devices
