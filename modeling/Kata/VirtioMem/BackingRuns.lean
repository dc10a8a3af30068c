import Kata.Lib.Runs
import Kata.VirtioMem.Backing

/-!
# Kata.VirtioMem.BackingRuns

Whole runs of `set_resource` and `set_requested_size` on a virtio-mem device with several map
regions. The regions that were created are recorded beside the device (`Tracked`).

The usable memory should be backed after every call, and a call that fails should leave the
configuration as it was. `usable_backed_iff` says which calls keep all this: the size or the address
that a call has assigned stays when `create_region` or the notifier fails, and a size that is
requested before the device has its slots is never mapped.
-/

namespace Kata.VirtioMem

open Lib

/-! ## Calls of the host -/

namespace Mem

def located (mem : Mem) (addr : Nat) : Mem := { mem with config := { mem.config with addr := addr } }

def requested (mem : Mem) (size : Nat) : Mem := { mem with config := { mem.config with requestedSize := size } }

/-- The resources are not the ones that the device has asked for. -/
def WrongResource (mem : Mem) (size : Nat) (slotRes : List UInt32) : Prop :=
  slotRes.length ≠ mem.slotNum ∨ size ≠ mem.config.regionSize

instance (mem : Mem) (size : Nat) (slotRes : List UInt32) : Decidable (mem.WrongResource size slotRes) :=
  inferInstanceAs (Decidable (_ ∨ _))

def WrongSize (mem : Mem) (size : Nat) : Prop := size > mem.capacity ∨ size % defaultBlockSize ≠ 0

instance (mem : Mem) (size : Nat) : Decidable (mem.WrongSize size) := inferInstanceAs (Decidable (_ ∨ _))

/-- The map regions with the slots that the device gets; they are kept if it has them already. -/
def slotted (mem : Mem) (slotRes : List UInt32) : Mem :=
  { mem with mapRegions := if mem.mapRegions ≠ [] then mem.mapRegions else slotRes.map fun slot => ⟨slot, none⟩ }

variable {checks : Bool} {factory : Factory} {mem : Mem}

theorem setResource_eq (hmulti : mem.multiRegion = true) (addr size : Nat) (slotRes : List UInt32) :
    mem.setResource checks factory [(addr, size)] slotRes =
      if mem.WrongResource size slotRes then .ok (.error .invalidResource, mem)
      else ((mem.located addr).slotted slotRes).resizeUsableRegion checks factory false := by
  by_cases hwrong : mem.WrongResource size slotRes
  · rw [if_pos hwrong]
    exact if_pos hwrong
  · rw [if_neg hwrong]
    refine (if_neg hwrong).trans ?_
    unfold initialRegions slotted
    by_cases hnil : mem.mapRegions ≠ []
    · rw [if_pos (show (mem.located addr).mapRegions ≠ [] from hnil)]
      simp only [if_pos hnil]
      rfl
    · rw [if_neg (show ¬ (mem.located addr).mapRegions ≠ [] from hnil)]
      simp only [if_neg hnil, if_pos hmulti]
      rfl

end Mem

/-- A call, with the answers of `create_region` and of the notifier. -/
inductive HostCall where
  | setResource (memRes : List (Nat × Nat)) (slotRes : List UInt32) (create : Nat → Nat → UInt32 → Option UInt64)
  | setRequestedSize (requestedSizeMb : Nat) (create : Nat → Nat → UInt32 → Option UInt64) (notified : Bool)

namespace HostCall

def factory : HostCall → Factory
  | .setResource _ _ create | .setRequestedSize _ create _ => fun guestAddr len slot =>
    (create guestAddr len slot).map UInt64.toNat

/-- `set_resource` does not notify anyone. -/
def notified : HostCall → Bool
  | .setResource _ _ _ => true
  | .setRequestedSize _ _ notified => notified

def run (checks : Bool) (mem : Mem) (call : HostCall) : Except Panic (Except Error Unit × Mem) :=
  match call with
  | .setResource memRes slotRes _ => mem.setResource checks call.factory memRes slotRes
  | .setRequestedSize requestedSizeMb _ notified => mem.setRequestedSize checks call.factory requestedSizeMb notified

/-- The device with the values that the call assigns before it resizes the usable region; none if it
does not get there. -/
def prepared (checks : Bool) (mem : Mem) : HostCall → Option Mem
  | .setResource [(addr, size)] slotRes _ =>
    if mem.WrongResource size slotRes then none else some ((mem.located addr).slotted slotRes)
  | .setResource _ _ _ => none
  | .setRequestedSize requestedSizeMb _ _ =>
    match mul checks requestedSizeMb 1024 >>= (mul checks · 1024) with
    | .error _ => none
    | .ok size => if mem.WrongSize size then none else some (mem.requested size)

def created (checks : Bool) (mem : Mem) (call : HostCall) : List Region :=
  match call.prepared checks mem with
  | none => []
  | some mem => mem.createdBy checks call.factory

end HostCall

/-- The device, the regions that were created, and the configuration before the last call if that
one has failed. -/
structure Tracked where
  mem : Mem
  created : List Region
  failed : Option VirtioMemConfig

/-- There is no state after a panic, which leaves the locks poisoned. -/
def step (checks : Bool) : Option Tracked → HostCall → Option Tracked
  | none, _ => none
  | some t, call =>
    match call.run checks t.mem with
    | .error _ => none
    | .ok (res, mem) => some {
        mem := mem
        created := t.created ++ call.created checks t.mem
        failed := match res with
          | .ok _ => none
          | .error _ => some t.mem.config }

/-- The usable memory is backed, and a call that has failed has changed nothing in the
configuration. -/
def Holds : Option Tracked → Prop
  | none => True
  | some t => Backing t.mem t.created ∧ ∀ config, t.failed = some config → t.mem.config = config

/-- The conditions on a call that gets as far as the resize, on the device with the values it has
assigned. -/
structure Harmless (checks : Bool) (t : Tracked) (call : HostCall) (mem : Mem) : Prop where
  /-- The device has its slots before it needs them. -/
  slots : ∀ n, mem.Wants checks n → mem.mapRegions ≠ []
  /-- A region that was created for another address is not in the way. -/
  apart : ∀ r' ∈ mem.createdBy checks call.factory, ∀ r ∈ t.created, r.base ≠ r'.base → r.Apart r'
  /-- A call that fails has assigned the values that were there. -/
  same : mem.Refuses checks call.factory ∨ call.notified = false → mem.config = t.mem.config
  /-- The notifier does not fail after the usable region has grown. -/
  notified : ∀ n, mem.Wants checks n → mem.Refuses checks call.factory ∨ call.notified = true

def Allowed (checks : Bool) : Option Tracked → HostCall → Prop
  | none, _ => True
  | some t, call => ∀ mem, call.prepared checks t.mem = some mem → (∃ r, call.run checks t.mem = .ok r) →
    Harmless checks t call mem

section Calls

variable {checks : Bool} {mem mem' : Mem} {created : List Region} {call : HostCall} {res : Except Error Unit}

theorem factory_lt (call : HostCall) (guestAddr len : Nat) (slot : UInt32) (hostAddr : Nat)
    (h : call.factory guestAddr len slot = some hostAddr) : hostAddr < 2 ^ 64 := by
  cases call with
  | setResource _ _ create | setRequestedSize _ create _ =>
    obtain ⟨a, -, rfl⟩ := Option.map_eq_some_iff.mp h
    exact a.toNat_lt

/-- What the notifier makes of a result. -/
def answered (notified : Bool) : Except Error Unit → Except Error Unit
  | .ok () => if notified then .ok () else .error .notify
  | .error e => .error e

/-- A call that does not get to the resize fails, and changes nothing. -/
def Rejected (mem : Mem) : Except Panic (Except Error Unit × Mem) → Prop
  | .ok (.error _, mem') => mem' = mem
  | .ok (.ok (), _) => False
  | .error _ => True

theorem setRequestedSize_eq {factory : Factory} {requestedSizeMb size : Nat} {notified : Bool}
    (hsize : (mul checks requestedSizeMb 1024 >>= (mul checks · 1024)) = .ok size) :
    mem.setRequestedSize checks factory requestedSizeMb notified =
      if mem.WrongSize size then .ok (.error .invalidInput, mem)
      else do
        let (res, mem) ← (mem.requested size).resizeUsableRegion checks factory false
        return (answered notified res, mem) := by
  obtain ⟨kb, hkb, hmul⟩ := bind_eq_ok.mp hsize
  unfold Mem.setRequestedSize
  rw [hkb]
  show (mul checks kb 1024 >>= _) = _
  rw [hmul]
  refine if_congr Iff.rfl rfl (bind_congr fun r => ?_)
  obtain ⟨res, mem⟩ := r
  cases res <;> rfl

theorem run_of_prepared_none (hmulti : mem.multiRegion = true) (hnone : call.prepared checks mem = none) :
    Rejected mem (call.run checks mem) := by
  cases call with
  | setResource memRes slotRes create =>
    match memRes with
    | [] => exact rfl
    | [(addr, size)] =>
      rw [HostCall.prepared] at hnone
      rw [HostCall.run, Mem.setResource_eq hmulti]
      by_cases hwrong : mem.WrongResource size slotRes
      · rw [if_pos hwrong]
        exact rfl
      · rw [if_neg hwrong] at hnone
        cases hnone
    | _ :: _ :: _ => exact rfl
  | setRequestedSize requestedSizeMb create notified =>
    rw [HostCall.prepared] at hnone
    rw [HostCall.run]
    cases hsize : mul checks requestedSizeMb 1024 >>= (mul checks · 1024) with
    | error e =>
      have herror : mem.setRequestedSize checks (HostCall.setRequestedSize requestedSizeMb create notified).factory
          requestedSizeMb notified = .error e := by
        unfold Mem.setRequestedSize
        rw [← bind_assoc, hsize]
        rfl
      rw [herror]
      trivial
    | ok size =>
      rw [setRequestedSize_eq hsize]
      simp only [hsize] at hnone
      by_cases hwrong : mem.WrongSize size
      · rw [if_pos hwrong]
        exact rfl
      · rw [if_neg hwrong] at hnone
        cases hnone

variable {mem₁ : Mem}

/-- How a call gets to the resize. -/
theorem prepared_cases (h : call.prepared checks mem = some mem₁) :
    (∃ addr size slotRes create, call = .setResource [(addr, size)] slotRes create ∧
      ¬ mem.WrongResource size slotRes ∧ mem₁ = (mem.located addr).slotted slotRes) ∨
    (∃ requestedSizeMb create notified size, call = .setRequestedSize requestedSizeMb create notified ∧
      (mul checks requestedSizeMb 1024 >>= (mul checks · 1024)) = .ok size ∧ ¬ mem.WrongSize size ∧
      mem₁ = mem.requested size) := by
  cases call with
  | setResource memRes slotRes create =>
    match memRes with
    | [] | _ :: _ :: _ => cases h
    | [(addr, size)] =>
      obtain ⟨hright, ⟨⟩⟩ := Option.ite_none_left_eq_some.mp h
      exact .inl ⟨addr, size, slotRes, create, rfl, hright, rfl⟩
  | setRequestedSize requestedSizeMb create notified =>
    rw [HostCall.prepared] at h
    cases hsize : mul checks requestedSizeMb 1024 >>= (mul checks · 1024) with
    | error e =>
      rw [hsize] at h
      cases h
    | ok size =>
      simp only [hsize] at h
      obtain ⟨hright, ⟨⟩⟩ := Option.ite_none_left_eq_some.mp h
      exact .inr ⟨requestedSizeMb, create, notified, size, rfl, hsize, hright, rfl⟩

theorem run_of_prepared_some (hmulti : mem.multiRegion = true) (hsome : call.prepared checks mem = some mem₁) :
    call.run checks mem = do
      let (res, mem) ← mem₁.resizeUsableRegion checks call.factory false
      return (answered call.notified res, mem) := by
  rcases prepared_cases hsome with ⟨_, _, _, _, rfl, hright, rfl⟩ | ⟨_, _, _, _, rfl, hsize, hright, rfl⟩
  · rw [HostCall.run, Mem.setResource_eq hmulti, if_neg hright]
    -- without a notifier the result is the one of the resize
    refine (bind_pure _).symm.trans (bind_congr fun r => ?_)
    obtain ⟨res, mem⟩ := r
    cases res <;> rfl
  · rw [HostCall.run, setRequestedSize_eq hsize, if_neg hright]
    rfl

/-- What a call assigns before the resize does not touch what is mapped. -/
structure Prepares (mem mem₁ : Mem) : Prop where
  mapped : ∀ i p, mappedAt mem₁.mapRegions i = some (some p) ↔ mappedAt mem.mapRegions i = some (some p)
  usable : mem₁.config.usableRegionSize = mem.config.usableRegionSize
  region : mem₁.config.regionSize = mem.config.regionSize
  block : mem₁.config.blockSize = mem.config.blockSize
  multi : mem₁.multiRegion = mem.multiRegion
  slots : mem.mapRegions = [] ∨ mem.mapRegions.length = mem.slotNum →
    mem₁.mapRegions = [] ∨ mem₁.mapRegions.length = mem₁.slotNum

theorem Prepares.isMapped (h : Prepares mem mem₁) (i : Nat) :
    IsMapped mem₁.mapRegions i ↔ IsMapped mem.mapRegions i :=
  exists_congr fun p => h.mapped i p

theorem slotted_prepares {addr size : Nat} {slotRes : List UInt32} (hright : ¬ mem.WrongResource size slotRes) :
    Prepares mem ((mem.located addr).slotted slotRes) := by
  by_cases hnil : mem.mapRegions ≠ []
  · have heq : ((mem.located addr).slotted slotRes).mapRegions = mem.mapRegions := if_pos hnil
    refine ⟨fun i p => by rw [heq], rfl, rfl, rfl, rfl, ?_⟩
    rw [heq]
    exact id
  · have heq : ((mem.located addr).slotted slotRes).mapRegions = slotRes.map fun slot => ⟨slot, none⟩ := if_neg hnil
    refine ⟨fun i p => ?_, rfl, rfl, rfl, rfl, fun _ => .inr ?_⟩
    · rw [heq, not_not.mp hnil, mappedAt, mappedAt, List.getElem?_map, Option.map_map]
      constructor
      · intro h
        obtain ⟨slot, -, hslot⟩ := Option.map_eq_some_iff.mp h
        cases hslot
      · intro h
        cases h
    · rw [heq, List.length_map]
      by_contra hne
      exact hright (.inl hne)

theorem prepared_prepares (h : call.prepared checks mem = some mem₁) : Prepares mem mem₁ := by
  rcases prepared_cases h with ⟨_, _, _, _, -, hright, rfl⟩ | ⟨_, _, _, _, -, -, -, rfl⟩
  · exact slotted_prepares hright
  · exact ⟨fun _ _ => Iff.rfl, rfl, rfl, rfl, rfl, id⟩

theorem Prepares.backing (h : Prepares mem mem₁) (hb : Backing mem created) : Backing mem₁ created := by
  obtain ⟨m, hm⟩ := hb.mapped
  refine ⟨⟨m, fun i => (h.isMapped i).trans (hm i)⟩, ?_, ?_, hb.apart, ?_⟩
  · intro offset hoffset
    exact (h.isMapped _).mpr (hb.backed offset (h.usable ▸ hoffset))
  · intro i hostAddr guestAddr hat
    exact hb.placed i hostAddr guestAddr ((h.mapped i _).mp hat)
  · rw [h.region]
    exact hb.within

theorem Prepares.settled (h : Prepares mem mem₁) (hs : Settled mem created) : Settled mem₁ created := by
  refine ⟨⟨h.block.trans hs.sound.block, ?_, ?_⟩, h.multi.trans hs.multi, h.slots hs.slots, ?_, hs.based⟩
  · rw [h.region]
    exact hs.sound.region
  · rw [h.usable, h.region]
    exact hs.sound.usable
  · intro m hm
    exact hs.below m fun i => (h.isMapped i).symm.trans (hm i)

/-! ## Steps and runs -/

/-- When a call that has failed has left the configuration as it was. -/
theorem resizes_same_iff {res₁ : Except Error Unit} {new : List Region} {factory : Factory}
    (notified : Bool) (hprep : Prepares mem mem₁) (h : mem₁.Resizes checks factory res₁ mem' new) :
    ((∃ e, answered notified res₁ = .error e) → mem'.config = mem.config) ↔
      (mem₁.Refuses checks factory ∨ notified = false → mem₁.config = mem.config) ∧
        ∀ n, mem₁.Wants checks n → mem₁.Refuses checks factory ∨ notified = true := by
  -- Without a failure of `create_region`, only the notifier is left.
  have hnotify : (∃ e, answered notified (.ok ()) = .error e) ↔ notified = false := by
    cases notified with
    | true => exact ⟨nofun, nofun⟩
    | false => exact ⟨fun _ => rfl, fun _ => ⟨_, rfl⟩⟩
  -- A configuration with a larger usable region is not the one before.
  have hgrown : ∀ {n : Nat}, mem₁.Wants checks n → ¬ mem₁.Refuses checks factory →
      ((notified = false → { mem₁.config with usableRegionSize := n } = mem.config) ↔
        (mem₁.Refuses checks factory ∨ notified = false → mem₁.config = mem.config) ∧
          ∀ n, mem₁.Wants checks n → mem₁.Refuses checks factory ∨ notified = true) := by
    intro n hwants hrefuses
    have hne : { mem₁.config with usableRegionSize := n } ≠ mem.config := by
      intro heq
      have husable : n = mem.config.usableRegionSize := congrArg VirtioMemConfig.usableRegionSize heq
      have hlt := hwants.2
      rw [hprep.usable] at hlt
      omega
    cases notified with
    | true => exact ⟨fun _ => ⟨fun h => Bool.noConfusion (h.resolve_left hrefuses), fun _ _ =>
      .inr rfl⟩, fun _ => nofun⟩
    | false =>
      refine ⟨fun h => absurd (h rfl) hne, fun h => ?_⟩
      rcases h.2 n hwants with h | h
      · exact absurd h hrefuses
      · cases h
  cases h with
  | keep hno =>
    have hrefuses : ¬ mem'.Refuses checks factory := fun ⟨n, _, hwants, _⟩ => hno n hwants
    rw [hnotify]
    exact ⟨fun h => ⟨fun hf => h (hf.resolve_left hrefuses), fun n hn => absurd hn (hno n)⟩,
      fun h hf => h.1 (.inr hf)⟩
  | extend hwants hplan =>
    rw [hnotify]
    refine hgrown hwants ?_
    rintro ⟨k, p, hk, hplan', -⟩
    rw [hwants.eq hk, hplan] at hplan'
    cases hplan'
  | fail hwants hplan hcreate =>
    have hrefuses : mem'.Refuses checks factory := ⟨_, _, hwants, hplan, hcreate⟩
    exact ⟨fun h => ⟨fun _ => h ⟨_, rfl⟩, fun _ _ => .inl hrefuses⟩, fun h _ => h.1 (.inl hrefuses)⟩
  | map hwants hplan hcreate _ =>
    rw [hnotify]
    refine hgrown hwants ?_
    rintro ⟨k, p, hk, hplan', hnone⟩
    rw [hwants.eq hk, hplan] at hplan'
    cases hplan'
    rw [hcreate] at hnone
    cases hnone

/-- The invariant that the steps keep. -/
def Kept : Option Tracked → Prop
  | none => True
  | some t => Settled t.mem t.created

/-- What a step does to a device: it is rejected, or it resizes what the call has prepared. -/
theorem step_cases (t : Tracked) (call : HostCall) (hs : Settled t.mem t.created) :
    (step checks (some t) call = none ∧ ∀ r, call.run checks t.mem ≠ .ok r) ∨
      (call.prepared checks t.mem = none ∧ step checks (some t) call = some ⟨t.mem, t.created, some t.mem.config⟩) ∨
      ∃ mem₁ res₁ mem', call.prepared checks t.mem = some mem₁ ∧ (∃ r, call.run checks t.mem = .ok r) ∧
        mem₁.Resizes checks call.factory res₁ mem' (mem₁.createdBy checks call.factory) ∧
        step checks (some t) call = some {
          mem := mem'
          created := t.created ++ mem₁.createdBy checks call.factory
          failed := match answered call.notified res₁ with
            | .ok _ => none
            | .error _ => some t.mem.config } := by
  rw [step]
  cases hrun : call.run checks t.mem with
  | error e => exact .inl ⟨rfl, nofun⟩
  | ok r =>
    obtain ⟨res, mem'⟩ := r
    refine .inr ?_
    cases hprep : call.prepared checks t.mem with
    | none =>
      have hrejected := run_of_prepared_none hs.multi hprep
      rw [hrun] at hrejected
      refine .inl ⟨rfl, ?_⟩
      simp only [HostCall.created, hprep, List.append_nil]
      cases res with
      | ok u => exact hrejected.elim
      | error e =>
        have hmem : mem' = t.mem := hrejected
        rw [hmem]
    | some mem₁ =>
      rw [run_of_prepared_some hs.multi hprep] at hrun
      obtain ⟨⟨res₁, mem₂⟩, hresize, hret⟩ := bind_eq_ok.mp hrun
      cases hret
      have hmulti : mem₁.multiRegion = true := (prepared_prepares hprep).multi.trans hs.multi
      refine .inr ⟨mem₁, res₁, mem', rfl, ⟨_, rfl⟩, Mem.resizes_of_ok hmulti hresize, ?_⟩
      simp only [HostCall.created, hprep]

theorem step_kept (s : Option Tracked) (call : HostCall) (hk : Kept s) (hh : Holds s) :
    Kept (step checks s call) := by
  cases s with
  | none => trivial
  | some t =>
    rcases step_cases t call hk with ⟨hstep, -⟩ | ⟨-, hstep⟩ | ⟨mem₁, res₁, mem', hprep, -, hresizes, hstep⟩
    · rw [hstep]
      trivial
    · rw [hstep]
      exact hk
    · rw [hstep]
      have hprepares := prepared_prepares hprep
      exact Mem.resizes_settled (hprepares.backing hh.1) (hprepares.settled hk) (factory_lt call) hresizes

theorem step_holds_iff (s : Option Tracked) (call : HostCall) (hk : Kept s) (hh : Holds s) :
    Holds (step checks s call) ↔ Allowed checks s call := by
  cases s with
  | none => exact Iff.rfl
  | some t =>
    rcases step_cases t call hk with ⟨hstep, hpanic⟩ | ⟨hprep, hstep⟩ | ⟨mem₁, res₁, mem', hprep,
      hruns, hresizes, hstep⟩
    · rw [hstep]
      exact ⟨fun _ mem _ ⟨r, hr⟩ => absurd hr (hpanic r), fun _ => trivial⟩
    · rw [hstep]
      refine ⟨fun _ mem hmem => ?_, fun _ => ⟨hh.1, fun config heq => Option.some.inj heq⟩⟩
      rw [hprep] at hmem
      cases hmem
    · rw [hstep]
      have hprepares := prepared_prepares hprep
      have hbacking :=
        Mem.resizes_backing_iff (hprepares.backing hh.1) (hprepares.settled hk) (factory_lt call) hresizes
      have hsame := resizes_same_iff call.notified hprepares hresizes
      have hfailed : (∀ config, (match answered call.notified res₁ with
            | .ok _ => none
            | .error _ => some t.mem.config) = some config → mem'.config = config) ↔
          ((∃ e, answered call.notified res₁ = .error e) → mem'.config = t.mem.config) := by
        cases answered call.notified res₁ with
        | ok u => exact ⟨fun _ => nofun, fun _ => nofun⟩
        | error e => exact ⟨fun h _ => h _ rfl, fun h config heq => Option.some.inj heq ▸ h ⟨e, rfl⟩⟩
      have hallowed : Allowed checks (some t) call ↔ Harmless checks t call mem₁ := by
        constructor
        · intro h
          exact h mem₁ hprep hruns
        · intro h mem hmem _
          rw [hprep] at hmem
          cases hmem
          exact h
      rw [hallowed]
      show (_ ∧ _) ↔ _
      rw [hbacking, hfailed, hsame]
      exact ⟨fun ⟨⟨hslots, hapart⟩, hsame, hnotified⟩ => ⟨hslots, hapart, hsame, hnotified⟩,
        fun ⟨hslots, hapart, hsame, hnotified⟩ => ⟨⟨hslots, hapart⟩, hsame, hnotified⟩⟩

end Calls

/-- The start of a run. -/
def fresh (mem : Mem) : Option Tracked := some ⟨mem, [], none⟩

theorem usable_backed_iff (checks : Bool) (capacity requestedSizeMib bootMemByte : Nat) (mem : Mem)
    (hnew : Mem.new checks capacity requestedSizeMib true bootMemByte = .ok (.ok mem))
    (hmulti : mem.multiRegion = true) (calls : List HostCall) :
    Always (step checks) Holds (fresh mem) calls ↔ Throughout (step checks) (Allowed checks) (fresh mem) calls := by
  obtain ⟨⟨hsound, -⟩, hnil, husable⟩ := Mem.new_spec hnew
  have hnone : ∀ i, ¬ IsMapped mem.mapRegions i := by
    intro i hi
    have hlt := hi.lt_length
    rw [hnil] at hlt
    exact Nat.not_lt_zero _ hlt
  have hkept : Kept (fresh mem) := ⟨hsound, hmulti, .inl hnil, nofun, nofun⟩
  have hholds : Holds (fresh mem) := by
    refine ⟨⟨⟨0, fun i => ⟨fun h => absurd h (hnone i), nofun⟩⟩, ?_, ?_, .nil, nofun⟩, nofun⟩
    · intro offset hoffset
      have hlt : offset < mem.config.usableRegionSize := hoffset
      rw [husable] at hlt
      exact absurd hlt (Nat.not_lt_zero _)
    · intro i hostAddr guestAddr hat
      exact absurd ⟨_, hat⟩ (hnone i)
  exact always_iff_of (fun s call hk hh _ => step_kept s call hk hh) step_holds_iff hkept hholds calls

/-- 8 GiB in four map regions, of which nothing is requested. -/
def eightGib : Mem where
  config := ⟨defaultBlockSize, 0, 0x200000000, 0, 0, 0⟩
  capacity := 0x200000000
  alignment := defaultBlockAlignment
  multiRegion := true
  mapRegions := []
  hostFd := none

/-- The device gets 8 GiB of address space from 4 GiB on, and a slot for each map region. -/
def plugIn : HostCall := .setResource [(0x100000000, 0x200000000)] [1, 2, 3, 4] fun _ _ _ => some 0x7F0000000000

/-- 1 GiB is requested, and a region is created for it. -/
def growOne : HostCall := .setRequestedSize 1024 (fun _ _ _ => some 0x7F0000000000) true

/-- A call whose region is created and that is notified is harmless, if the device has its slots and
no region yet. -/
theorem harmless_first {mem : Mem} {call : HostCall} {t : Tracked} (hslots : mem.mapRegions ≠ [])
    (ht : t.created = [])
    (hcreate : ∀ guestAddr len slot, call.factory guestAddr len slot ≠ none) (hnotified : call.notified = true) :
    Harmless true t call mem := by
  refine ⟨fun _ _ => hslots, fun _ _ r hr => ?_, fun h => ?_, fun _ _ => .inr hnotified⟩
  · rw [ht] at hr
    cases hr
  · rcases h with ⟨n, p, -, -, hnone⟩ | hnot
    · exact absurd hnone (hcreate _ _ _)
    · rw [hnotified] at hnot
      cases hnot

theorem usable_backed_eight_gib : Always (step true) Holds (fresh eightGib) [plugIn, growOne] ∧
    (step true (step true (fresh eightGib) plugIn) growOne).map (·.created.length) = some 1 := by
  refine ⟨(usable_backed_iff true 8192 0 0 eightGib (by rfl) rfl [plugIn, growOne]).mpr ⟨?_, ?_, trivial⟩, rfl⟩
  · intro mem hmem _
    cases hmem
    exact harmless_first (List.cons_ne_nil _ _) rfl (fun _ _ _ => Option.some_ne_none _) rfl
  · intro mem hmem _
    cases hmem
    exact harmless_first (List.cons_ne_nil _ _) rfl (fun _ _ _ => Option.some_ne_none _) rfl

/-- 1 GiB is requested and the region for it cannot be created: the call fails, and the
configuration says 1 GiB. -/
theorem requested_size_stays :
    ¬ Always (step true) Holds (fresh eightGib) [plugIn, .setRequestedSize 1024 (fun _ _ _ => none) true] := by
  intro h
  have hlast : Holds (step true (step true (fresh eightGib) plugIn)
      (.setRequestedSize 1024 (fun _ _ _ => none) true)) :=
    h.2.2
  have hsame := hlast.2 ⟨defaultBlockSize, 0x100000000, 0x200000000, 0, 0, 0⟩ rfl
  have hsize : 0x40000000 = 0 := congrArg VirtioMemConfig.requestedSize hsame
  cases hsize

end Kata.VirtioMem
