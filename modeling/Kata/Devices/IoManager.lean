import Kata.Lib.Floor
import Kata.Resources.Manager

/-!
# Kata.Devices.IoManager

The dispatch of trapped I/O to devices (`dbs_device/src/device_manager.rs`). `D` stands for the
devices (`Arc<dyn DeviceIo>`), of which only the identity matters here.

A bus is a `BTreeMap<IoRange, Arc<dyn DeviceIo>>`. The order of `IoRange` looks at the base only, so
a bus has one entry for each base, with a size and a device.
-/

namespace Kata.Devices

open Allocator Resources Lib

variable {D : Type}

structure IoRange where
  base : U64
  size : U64
deriving DecidableEq, Repr

def IoRange.newPioRange (base size : UInt16) : IoRange := ⟨ofU16 base, ofU16 size⟩

def IoRange.newMmioRange (base size : U64) : IoRange := ⟨base, size⟩

/-- The address is in the range. -/
def IoRange.Has (r : IoRange) (addr : U64) : Prop := r.base ≤ addr ∧ addr.val - r.base.val < r.size.val

abbrev Bus (D : Type) := Std.ExtTreeMap U64 (U64 × D)

namespace Bus

/-- `BTreeMap::insert`, with the device that was there. An entry that is there gets the new device,
but its key, and with it the size, is not replaced. -/
def add (bus : Bus D) (range : IoRange) (device : D) : Option D × Bus D :=
  match bus[range.base]? with
  | some (size, old) => (some old, bus.insert range.base (size, device))
  | none => (none, bus.insert range.base (range.size, device))

def remove (bus : Bus D) (range : IoRange) : Bus D := bus.erase range.base

/-- The entry with the nearest base, if its range reaches the address. -/
def lookup (bus : Bus D) (addr : U64) : Option (D × U64) :=
  match floorEntry bus addr with
  | some (base, size, device) => if addr.val - base.val < size.val then some (device, base) else none
  | none => none

end Bus

inductive IoError where
  | deviceOverlap
  | noDevice
deriving DecidableEq, Repr

structure IoManager (D : Type) where
  pioBus : Bus D
  mmioBus : Bus D

namespace IoManager

def new : IoManager D := ⟨∅, ∅⟩

def unregisterDeviceIo (m : IoManager D) : List Resource → IoManager D
  | [] => m
  | .pioAddressRange base size :: rest =>
    unregisterDeviceIo { m with pioBus := m.pioBus.remove (.newPioRange base size) } rest
  | .mmioAddressRange base size :: rest =>
    unregisterDeviceIo { m with mmioBus := m.mmioBus.remove (.newMmioRange base size) } rest
  | _ :: rest => unregisterDeviceIo m rest

/-- The loop of `register_device_io`; `done` is `resources[0..idx]`. -/
def registerLoop (device : D) (m : IoManager D) (done : List Resource) :
    List Resource → Except IoError Unit × IoManager D
  | [] => (.ok (), m)
  | .pioAddressRange base size :: rest =>
    match m.pioBus.add (.newPioRange base size) device with
    | (some _, bus) => (.error .deviceOverlap, unregisterDeviceIo { m with pioBus := bus } done)
    | (none, bus) =>
      registerLoop device { m with pioBus := bus } (done ++ [.pioAddressRange base size]) rest
  | .mmioAddressRange base size :: rest =>
    match m.mmioBus.add (.newMmioRange base size) device with
    | (some _, bus) => (.error .deviceOverlap, unregisterDeviceIo { m with mmioBus := bus } done)
    | (none, bus) =>
      registerLoop device { m with mmioBus := bus } (done ++ [.mmioAddressRange base size]) rest
  | res :: rest => registerLoop device m (done ++ [res]) rest

variable (m : IoManager D)

def registerDeviceIo (device : D) (resources : List Resource) :
    Except IoError Unit × IoManager D :=
  registerLoop device m [] resources

def getMmioDevice (addr : U64) : Option (D × U64) := m.mmioBus.lookup addr

def getPioDevice (addr : UInt16) : Option (D × UInt16) :=
  (m.pioBus.lookup (ofU16 addr)).map fun (device, base) => (device, UInt16.ofNat base)

/-! ## Both buses -/

inductive BusId where
  | pio
  | mmio
deriving DecidableEq, Repr

def bus : BusId → Bus D
  | .pio => m.pioBus
  | .mmio => m.mmioBus

def setBus (bus : Bus D) : BusId → IoManager D
  | .pio => { m with pioBus := bus }
  | .mmio => { m with mmioBus := bus }

@[simp] theorem bus_setBus (b : Bus D) (id : BusId) : (m.setBus b id).bus id = b := by
  cases id <;> rfl

theorem bus_setBus_ne (b : Bus D) {id id' : BusId} (h : id' ≠ id) :
    (m.setBus b id).bus id' = m.bus id' := by
  cases id <;> cases id' <;> first | rfl | exact absurd rfl h

/-- What is registered for a base. -/
def entry (s : BusId × U64) : Option (U64 × D) := (m.bus s.1)[s.2]?

theorem ext_entry {m m' : IoManager D} (h : ∀ s, m.entry s = m'.entry s) : m = m' := by
  cases m with
  | mk pio mmio =>
    cases m' with
    | mk pio' mmio' =>
      have hpio : pio = pio' := Std.ExtTreeMap.ext_getElem? fun base => h (.pio, base)
      have hmmio : mmio = mmio' := Std.ExtTreeMap.ext_getElem? fun base => h (.mmio, base)
      rw [hpio, hmmio]

/-- Writes one entry. -/
def put (s : BusId × U64) (v : U64 × D) : IoManager D :=
  m.setBus ((m.bus s.1).insert s.2 v) s.1

theorem entry_put (s s' : BusId × U64) (v : U64 × D) :
    (m.put s v).entry s' = if s' = s then some v else m.entry s' := by
  obtain ⟨id, base⟩ := s
  obtain ⟨id', base'⟩ := s'
  simp only [entry, put]
  by_cases hid : id' = id
  · subst hid
    rw [bus_setBus, Std.ExtTreeMap.getElem?_insert]
    simp only [Std.compare_eq_iff_eq, Prod.mk.injEq, true_and, @eq_comm _ base]
  · rw [bus_setBus_ne _ _ hid, if_neg fun heq => hid (congrArg Prod.fst heq)]

theorem entry_remove (id : BusId) (range : IoRange) (s : BusId × U64) :
    (m.setBus ((m.bus id).remove range) id).entry s =
      if s = (id, range.base) then none else m.entry s := by
  obtain ⟨id', base⟩ := s
  simp only [entry]
  by_cases hid : id' = id
  · subst hid
    rw [bus_setBus, Bus.remove, Std.ExtTreeMap.getElem?_erase]
    simp only [Std.compare_eq_iff_eq, Prod.mk.injEq, true_and, @eq_comm _ range.base]
  · rw [bus_setBus_ne _ _ hid, if_neg fun heq => hid (congrArg Prod.fst heq)]

/-- The range of a resource, and its bus. Other resources are ignored. -/
def ioRange : Resource → Option (BusId × IoRange)
  | .pioAddressRange base size => some (.pio, .newPioRange base size)
  | .mmioAddressRange base size => some (.mmio, .newMmioRange base size)
  | _ => none

/-- The place of a resource: no two entries have the same. -/
def slot (res : Resource) : Option (BusId × U64) := (ioRange res).map fun (id, range) => (id, range.base)

def slots (resources : List Resource) : List (BusId × U64) := resources.filterMap slot

section Lemmas

variable {m m' : IoManager D} {device : D} {res : Resource} {resources done rest : List Resource} {id : BusId}
  {range : IoRange}

theorem slot_of_ioRange (h : ioRange res = some (id, range)) : slot res = some (id, range.base) := by
  rw [slot, h]
  rfl

theorem unregister_none (h : ioRange res = none) :
    m.unregisterDeviceIo (res :: rest) = m.unregisterDeviceIo rest := by
  cases res <;> first | rfl | cases h

theorem unregister_some (h : ioRange res = some (id, range)) :
    m.unregisterDeviceIo (res :: rest) =
      (m.setBus ((m.bus id).remove range) id).unregisterDeviceIo rest := by
  cases res <;> cases h <;> rfl

theorem registerLoop_none (h : ioRange res = none) :
    registerLoop device m done (res :: rest) = registerLoop device m (done ++ [res]) rest := by
  cases res <;> first | rfl | cases h

theorem registerLoop_some (h : ioRange res = some (id, range)) :
    registerLoop device m done (res :: rest) =
      match (m.bus id).add range device with
      | (some _, bus) => (.error .deviceOverlap, (m.setBus bus id).unregisterDeviceIo done)
      | (none, bus) => registerLoop device (m.setBus bus id) (done ++ [res]) rest := by
  cases res <;> cases h <;> rfl

theorem entry_unregister (s : BusId × U64) :
    (m.unregisterDeviceIo resources).entry s = if s ∈ slots resources then none else m.entry s := by
  induction resources generalizing m with
  | nil => rfl
  | cons res rest ih =>
    cases hr : ioRange res with
    | none =>
      have hs : slots (res :: rest) = slots rest := by
        simp [slots, slot, hr]
      rw [unregister_none hr, ih, hs]
    | some p =>
      obtain ⟨id, range⟩ := p
      have hs : slots (res :: rest) = (id, range.base) :: slots rest := by
        simp [slots, slot, hr]
      rw [unregister_some hr, ih, hs, entry_remove]
      by_cases hmem : s ∈ slots rest
      · rw [if_pos hmem, if_pos (.tail _ hmem)]
      · rw [if_neg hmem]
        simp [hmem]

/-! ## Registering -/

/-- The resources have places of their own. -/
structure Fresh (m : IoManager D) (resources : List Resource) : Prop where
  nodup : (slots resources).Nodup
  free : ∀ s ∈ slots resources, m.entry s = none

/-- `m` is `m0` with the resources in `done` for the device. -/
structure Added (m0 : IoManager D) (device : D) (done : List Resource) (m : IoManager D) : Prop where
  fresh : Fresh m0 done
  new : ∀ res ∈ done, ∀ id range, ioRange res = some (id, range) →
    m.entry (id, range.base) = some (range.size, device)
  old : ∀ s ∉ slots done, m.entry s = m0.entry s

theorem Added.nothing (m : IoManager D) (device : D) : Added m device [] m :=
  ⟨⟨List.nodup_nil, nofun⟩, nofun, fun _ _ => rfl⟩

variable {m0 : IoManager D}

theorem Added.skip (h : Added m0 device done m) (hr : ioRange res = none) : Added m0 device (done ++ [res]) m := by
  have hs : slots (done ++ [res]) = slots done := by
    simp [slots, slot, hr]
  refine ⟨⟨hs ▸ h.fresh.nodup, hs ▸ h.fresh.free⟩, ?_, hs ▸ h.old⟩
  intro res' hmem id range hr'
  rcases List.mem_append.mp hmem with hmem | hmem
  · exact h.new res' hmem id range hr'
  · rw [List.mem_singleton.mp hmem, hr] at hr'
    cases hr'

theorem Added.add (h : Added m0 device done m) (hr : ioRange res = some (id, range))
    (hfree : m.entry (id, range.base) = none) :
    Added m0 device (done ++ [res]) (m.put (id, range.base) (range.size, device)) := by
  have hs : slots (done ++ [res]) = slots done ++ [(id, range.base)] := by
    simp [slots, slot, hr]
  have hnew : (id, range.base) ∉ slots done := by
    intro hmem
    obtain ⟨res', hres', hslot⟩ := List.mem_filterMap.mp hmem
    obtain ⟨⟨id', range'⟩, hr', heq⟩ := Option.map_eq_some_iff.mp hslot
    have hentry := h.new res' hres' id' range' hr'
    rw [show (id', range'.base) = (id, range.base) from heq, hfree] at hentry
    cases hentry
  refine ⟨⟨?_, ?_⟩, ?_, ?_⟩
  · rw [hs, ← List.concat_eq_append]
    exact List.Nodup.concat hnew h.fresh.nodup
  · intro s hmem
    rw [hs] at hmem
    rcases List.mem_append.mp hmem with hmem | hmem
    · exact h.fresh.free s hmem
    · rw [List.mem_singleton.mp hmem, ← h.old _ hnew]
      exact hfree
  · intro res' hmem id' range' hr'
    rw [entry_put]
    rcases List.mem_append.mp hmem with hmem | hmem
    · have hentry := h.new res' hmem id' range' hr'
      have hne : (id', range'.base) ≠ (id, range.base) := by
        intro heq
        rw [heq, hfree] at hentry
        cases hentry
      rw [if_neg hne]
      exact hentry
    · rw [List.mem_singleton.mp hmem, hr] at hr'
      cases hr'
      exact if_pos rfl
  · intro s hmem
    rw [hs, List.mem_append, not_or] at hmem
    rw [entry_put, if_neg fun heq => hmem.2 (List.mem_singleton.mpr heq)]
    exact h.old s hmem.1

variable {s : BusId × U64}

/-- The rollback takes back what the call has added. -/
theorem Added.rollback (h : Added m0 device done m) {v : U64 × D} :
    (m.put s v).unregisterDeviceIo done = if s ∈ slots done then m0 else m0.put s v := by
  split
  · rename_i hs
    refine ext_entry fun s' => ?_
    rw [entry_unregister, entry_put]
    by_cases hmem : s' ∈ slots done
    · rw [if_pos hmem]
      exact (h.fresh.free s' hmem).symm
    · have hne : s' ≠ s := fun heq => hmem (heq ▸ hs)
      rw [if_neg hmem, if_neg hne]
      exact h.old s' hmem
  · rename_i hs
    refine ext_entry fun s' => ?_
    rw [entry_unregister, entry_put, entry_put]
    by_cases hmem : s' ∈ slots done
    · have hne : s' ≠ s := fun heq => hs (heq ▸ hmem)
      rw [if_pos hmem, if_neg hne]
      exact (h.fresh.free s' hmem).symm
    · rw [if_neg hmem, h.old s' hmem]

/-- How a registration ends. A base that is taken by a resource of the same list leaves no trace;
one that was taken before gets the new device. -/
inductive Registered (m : IoManager D) (device : D) (resources : List Resource) :
    Except IoError Unit × IoManager D → Prop where
  | ok {m' : IoManager D} : Added m device resources m' → Registered m device resources (.ok (), m')
  | repeated {done rest : List Resource} {res : Resource} {s : BusId × U64} : resources = done ++ res :: rest →
      Fresh m done → slot res = some s → s ∈ slots done →
      Registered m device resources (.error .deviceOverlap, m)
  | taken {done rest : List Resource} {res : Resource} {s : BusId × U64} {size : U64} {old : D} :
      resources = done ++ res :: rest → Fresh m done → slot res = some s → m.entry s = some (size, old) →
      Registered m device resources (.error .deviceOverlap, m.put s (size, device))

theorem registerLoop_registered (h : Added m0 device done m) :
    Registered m0 device (done ++ rest) (registerLoop device m done rest) := by
  induction rest generalizing m done with
  | nil =>
    rw [List.append_nil]
    exact .ok h
  | cons res rest ih =>
    have hassoc : done ++ res :: rest = (done ++ [res]) ++ rest := by simp
    cases hr : ioRange res with
    | none =>
      rw [registerLoop_none hr, hassoc]
      exact ih (h.skip hr)
    | some p =>
      obtain ⟨id, range⟩ := p
      rw [registerLoop_some hr]
      cases hentry : m.entry (id, range.base) with
      | none =>
        have hadd : (m.bus id).add range device = (none, (m.bus id).insert range.base (range.size, device)) := by
          rw [Bus.add, show (m.bus id)[range.base]? = none from hentry]
        rw [hadd, hassoc]
        exact ih (h.add hr hentry)
      | some v =>
        obtain ⟨size, old⟩ := v
        have hadd : (m.bus id).add range device =
            (some old, (m.bus id).insert range.base (size, device)) := by
          rw [Bus.add, show (m.bus id)[range.base]? = some (size, old) from hentry]
        rw [hadd]
        show Registered m0 device _
          (.error .deviceOverlap, (m.put (id, range.base) (size, device)).unregisterDeviceIo done)
        rw [h.rollback]
        split
        · rename_i hmem
          exact .repeated rfl h.fresh (slot_of_ioRange hr) hmem
        · rename_i hmem
          have hold : m0.entry (id, range.base) = some (size, old) := by
            rw [← h.old _ hmem]
            exact hentry
          exact .taken rfl h.fresh (slot_of_ioRange hr) hold

theorem registerDeviceIo_registered (m : IoManager D) (device : D) (resources : List Resource) :
    Registered m device resources (m.registerDeviceIo device resources) :=
  registerLoop_registered (Added.nothing m device)

/-! ## Atomicity -/

/-- Every address is handled as before. -/
def SameDispatch (m m' : IoManager D) : Prop :=
  (∀ addr, m'.getMmioDevice addr = m.getMmioDevice addr) ∧ ∀ addr, m'.getPioDevice addr = m.getPioDevice addr

/-- The first base of the list that is taken, if it is taken by a registered range, belongs to the
same device, or the range is empty. -/
def SameOwner (m : IoManager D) (device : D) (resources : List Resource) : Prop :=
  ∀ done res rest, resources = done ++ res :: rest → Fresh m done →
    ∀ s size old, slot res = some s → m.entry s = some (size, old) → size = 0 ∨ old = device

variable {old : D}

/-- The device of an empty range is never asked. -/
theorem lookup_insert_empty {bus : Bus D} {base : U64} (h : bus[base]? = some (0, old)) (addr : U64) :
    Bus.lookup (bus.insert base (0, device)) addr = bus.lookup addr := by
  unfold Bus.lookup
  rw [floorEntry_insert h]
  cases hf : floorEntry bus addr with
  | none => rfl
  | some e =>
    obtain ⟨b, size, d⟩ := e
    simp only [Option.map_some]
    by_cases hb : b = base
    · subst hb
      have hsize := (floorEntry_eq_some.mp hf).1
      rw [h] at hsize
      cases hsize
      simp
    · rw [if_neg hb]

theorem lookup_base {bus : Bus D} {base size : U64} (h : bus[base]? = some (size, device)) (hpos : size ≠ 0) :
    Bus.lookup bus base = some (device, base) := by
  unfold Bus.lookup
  rw [floorEntry_self h]
  have hlt : base.val - base.val < size.val := by
    rw [Nat.sub_self]
    exact Nat.pos_of_ne_zero fun h0 => hpos (Fin.ext h0)
  exact if_pos hlt

theorem put_self {v : U64 × D} (h : m.entry s = some v) : m.put s v = m := by
  refine ext_entry fun s' => ?_
  rw [entry_put]
  split
  · rename_i hs
    rw [hs, h]
  · rfl

theorem sameDispatch_put (h : m.entry s = some (0, old)) : SameDispatch m (m.put s (0, device)) := by
  obtain ⟨id, base⟩ := s
  cases id with
  | pio =>
    refine ⟨fun _ => rfl, ?_⟩
    intro addr
    have hbus : m.pioBus[base]? = some (0, old) := h
    show Option.map _ (Bus.lookup (m.pioBus.insert base (0, device)) (ofU16 addr)) = _
    rw [lookup_insert_empty hbus]
    rfl
  | mmio =>
    refine ⟨?_, fun _ => rfl⟩
    intro addr
    have hbus : m.mmioBus[base]? = some (0, old) := h
    show Bus.lookup (m.mmioBus.insert base (0, device)) addr = _
    rw [lookup_insert_empty hbus]
    rfl

variable {size : U64}

theorem owner_of_sameDispatch (hs : slot res = some s)
    (h : m.entry s = some (size, old)) (hpos : size ≠ 0) (hsame : SameDispatch m (m.put s (size, device))) :
    old = device := by
  have hput : (m.put s (size, device)).entry s = some (size, device) := by
    rw [entry_put, if_pos rfl]
  cases res with
  | pioAddressRange base sz =>
    obtain rfl : (.pio, ofU16 base) = s := Option.some.inj hs
    have hold : m.pioBus.lookup (ofU16 base) = some (old, ofU16 base) := lookup_base h hpos
    have hnew : (m.put (.pio, ofU16 base) (size, device)).pioBus.lookup (ofU16 base) =
        some (device, ofU16 base) := lookup_base hput hpos
    have heq := hsame.2 base
    rw [getPioDevice, getPioDevice, hold, hnew] at heq
    cases heq
    rfl
  | mmioAddressRange base sz =>
    obtain rfl : (.mmio, base) = s := Option.some.inj hs
    have hold : m.getMmioDevice base = some (old, base) := lookup_base h hpos
    have hnew : (m.put (.mmio, base) (size, device)).getMmioDevice base = some (device, base) :=
      lookup_base hput hpos
    have heq := hsame.1 base
    rw [hold, hnew] at heq
    cases heq
    rfl
  | _ => cases hs

theorem Added.taken {mid : List Resource} (h : Added m0 device done m)
    (hfresh : Fresh m0 (done ++ mid)) (hs : slot res = some s) (hentry : m0.entry s = some (size, old)) :
    registerLoop device m done (mid ++ res :: rest) = (.error .deviceOverlap, m0.put s (size, device)) := by
  induction mid generalizing m done with
  | nil =>
    obtain ⟨⟨id, range⟩, hr, rfl⟩ := Option.map_eq_some_iff.mp hs
    have hnot : (id, range.base) ∉ slots done := by
      intro hmem
      rw [h.fresh.free _ hmem] at hentry
      cases hentry
    have hold : (m.bus id)[range.base]? = some (size, old) := (h.old _ hnot).trans hentry
    have hadd : (m.bus id).add range device = (some old, (m.bus id).insert range.base (size, device)) := by
      rw [Bus.add, hold]
    rw [List.nil_append, registerLoop_some hr, hadd]
    show (_, (m.put (id, range.base) (size, device)).unregisterDeviceIo done) = _
    rw [h.rollback, if_neg hnot]
  | cons res' mid ih =>
    have hassoc : done ++ res' :: mid = (done ++ [res']) ++ mid := by simp
    rw [hassoc] at hfresh
    cases hr : ioRange res' with
    | none =>
      rw [List.cons_append, registerLoop_none hr]
      exact ih (h.skip hr) hfresh
    | some p =>
      obtain ⟨id, range⟩ := p
      have hslots : slots (done ++ [res'] ++ mid) = slots done ++ (id, range.base) :: slots mid := by
        simp [slots, slot, hr]
      have hnodup := hfresh.nodup
      rw [hslots] at hnodup
      have hnot : (id, range.base) ∉ slots done := by
        intro hmem
        exact (List.nodup_append.mp hnodup).2.2 _ hmem _ (.head _) rfl
      have hnone : m.entry (id, range.base) = none := by
        rw [h.old _ hnot]
        refine hfresh.free _ ?_
        rw [hslots]
        exact List.mem_append_right _ (.head _)
      have hadd : (m.bus id).add range device = (none, (m.bus id).insert range.base (range.size, device)) := by
        rw [Bus.add, show (m.bus id)[range.base]? = none from hnone]
      rw [List.cons_append, registerLoop_some hr, hadd]
      exact ih (h.add hr hnone) hfresh

end Lemmas

theorem registerDeviceIo_atomic_iff (m : IoManager D) (device : D) (resources : List Resource) :
    (∀ m', m.registerDeviceIo device resources = (.error .deviceOverlap, m') → SameDispatch m m') ↔
      SameOwner m device resources := by
  constructor
  · intro h done res rest hres hfresh s size old hs hentry
    by_cases hpos : size = 0
    · exact .inl hpos
    · refine .inr (owner_of_sameDispatch hs hentry hpos (h _ ?_))
      rw [hres]
      exact (Added.nothing m device).taken hfresh hs hentry
  · intro h m' hm'
    have hreg := registerDeviceIo_registered m device resources
    rw [hm'] at hreg
    cases hreg with
    | repeated _ _ _ _ => exact ⟨fun _ => rfl, fun _ => rfl⟩
    | taken hres hfresh hs hentry =>
      rcases h _ _ _ hres hfresh _ _ _ hs hentry with rfl | rfl
      · exact sameDispatch_put hentry
      · rw [put_self hentry]
        exact ⟨fun _ => rfl, fun _ => rfl⟩

/-- Device 2 asks for the base of device 1, is refused, and handles the accesses of device 1 from
then on. -/
theorem refused_device_takes_over :
    ∃ m m' : IoManager Nat,
      IoManager.new.registerDeviceIo 1 [.mmioAddressRange 0x1000 0x1000] = (.ok (), m) ∧
      m.registerDeviceIo 2 [.mmioAddressRange 0x1000 0x10] = (.error .deviceOverlap, m') ∧
      m.getMmioDevice 0x1800 = some (1, 0x1000) ∧ m'.getMmioDevice 0x1800 = some (2, 0x1000) :=
  ⟨_, _, rfl, rfl, by decide, by decide⟩

end IoManager
end Kata.Devices
