import Kata.VirtioMem.Device

/-!
# Kata.VirtioMem.Requests

What one request of the guest does to the bitmap of the virtio-mem device.

`stateChangeRequest_cases` says it of a plug or unplug request: it changes nothing, or all checks
have passed and the blocks of the request are changed. `unplugLoop_unplugged` says it of the loop
that unplugs all: it comes to the end, or it stops at the first plugged block that cannot be freed
(`Unplugged`).
-/

namespace Kata.VirtioMem

open Lib Window

variable {checks : Bool} {host : Host} {mem : Mem} {memState memState' : List Bool} {resp : Resp}

/-! ## One request -/

structure InUsable (config : VirtioMemConfig) (addr size : Nat) : Prop where
  aligned : addr % config.blockSize = 0
  pos : 0 < size
  start : config.addr ≤ addr
  stop : addr + size ≤ config.addr + config.usableRegionSize
  fits : config.addr + config.usableRegionSize ≤ U64.max

/-- If the end of the usable region wraps around, no range is valid. -/
theorem validRange_true {config : VirtioMemConfig} {addr size : Nat} (hu : config.usableRegionSize ≤ U64.max)
    (h : validRange checks config addr size = .ok true) : InUsable config addr size := by
  unfold validRange at h
  split at h
  · cases h
  split at h
  · cases h
  split at h
  · cases h
  obtain ⟨top, htop, hrest⟩ := bind_eq_ok.mp h
  split at hrest
  · cases hrest
  · have hstop : addr + size ≤ top := of_decide_eq_true (Except.ok.inj hrest)
    rcases U64.add_eq_ok htop with ⟨hfits, rfl⟩ | ⟨hwrap, rfl⟩
    · exact ⟨by omega, by omega, by omega, by omega, hfits⟩
    · unfold U64.max at *
      omega

theorem validRange_of {config : VirtioMemConfig} {addr size : Nat} (h : InUsable config addr size)
    (hsize : size % config.blockSize = 0) : validRange checks config addr size = .ok true := by
  obtain ⟨haligned, hpos, hstart, hstop, hfits⟩ := h
  unfold validRange
  rw [if_neg (by omega), if_neg (by omega), if_neg (by omega), add, U64.add_of_le hfits]
  simp only [ok_bind]
  rw [if_neg (by omega), decide_eq_true hstop]

theorem checkBitmap_all {i n : Nat} {b : Bool} (h : checkBitmap i n memState b = true)
    (hlen : i + n ≤ memState.length) : All memState i n b := by
  intro k hi hk
  have hall := List.all_eq_true.mp h
  have hget : ((memState.drop i).take n)[k - i]? = some memState[k] := by
    rw [List.getElem?_take_of_lt (by omega), List.getElem?_drop, show i + (k - i) = k by omega,
      List.getElem?_eq_getElem]
  have hval := hall _ (List.mem_of_getElem? hget)
  rw [List.getElem?_eq_getElem (by omega), beq_iff_eq.mp hval]

/-- The number of the map region of a block. -/
def regionOf (mem : Mem) (x : Nat) : Nat :=
  if mem.multiRegion then (x * mem.config.blockSize) >>> mapRegionShift else 0

/-- The map region of a block is mapped. -/
def Mapped (mem : Mem) (x : Nat) : Prop := ∃ p, mappedAt mem.mapRegions (regionOf mem x) = some (some p)

/-- What holds of a block that is plugged. -/
structure Covered (mem : Mem) (x : Nat) : Prop where
  usable : (x + 1) * mem.config.blockSize ≤ mem.config.usableRegionSize
  fits : mem.config.addr + (x + 1) * mem.config.blockSize ≤ U64.max
  mapped : Mapped mem x

theorem hostAddr_mapped {offset size a x : Nat} (hb : mem.config.blockSize = defaultBlockSize)
    (h : hostAddr checks mem offset size = .ok (some a)) (hx : offset / mem.config.blockSize ≤ x)
    (hsize : x * mem.config.blockSize < offset + size) : Mapped mem x := by
  unfold hostAddr at h
  unfold Mapped regionOf
  split at h
  · rename_i hmulti
    rw [if_pos hmulti]
    split at h
    · cases h
    · rename_i hsame
      have hregion : (x * mem.config.blockSize) >>> mapRegionShift = offset >>> mapRegionShift := by
        rw [hb, show defaultBlockSize = 4194304 from rfl] at hx hsize ⊢
        rw [mapRegionShift, Nat.shiftRight_eq_div_pow, Nat.shiftRight_eq_div_pow] at hsame ⊢
        omega
      rw [hregion]
      split at h
      · cases h
      · cases h
      · rename_i hat
        exact ⟨_, hat⟩
  · rename_i hmulti
    rw [if_neg hmulti]
    split at h
    · cases h
    · cases h
    · rename_i hat
      exact ⟨_, hat⟩

theorem stateChangeRequest_cases {addr size nbBlocks : Nat} {plug : Bool}
    (h : stateChangeRequest checks host mem memState addr size nbBlocks plug = .ok (resp, memState')) :
    (resp ≠ .ack ∧ memState' = memState) ∨
      (resp = .ack ∧ validRange checks mem.config addr size = .ok true ∧
        checkBitmap ((addr - mem.config.addr) / mem.config.blockSize) nbBlocks memState (!plug) = true ∧
        (∃ a, hostAddr checks mem (addr - mem.config.addr) size = .ok (some a) ∧
          (plug = true ∨ release host mem (addr - mem.config.addr) a size = true)) ∧
        memState' = setBitmap ((addr - mem.config.addr) / mem.config.blockSize) nbBlocks memState plug) := by
  unfold stateChangeRequest at h
  obtain ⟨tooMuch, _, h1⟩ := bind_eq_ok.mp h
  cases tooMuch with
  | true =>
    cases h1
    exact .inl ⟨nofun, rfl⟩
  | false =>
    obtain ⟨valid, hvalid, h2⟩ := bind_eq_ok.mp h1
    cases valid with
    | false =>
      cases h2
      exact .inl ⟨nofun, rfl⟩
    | true =>
      simp only at h2
      split at h2
      · rename_i hbits
        obtain ⟨found, hfound, h3⟩ := bind_eq_ok.mp h2
        cases found with
        | none =>
          cases h3
          exact .inl ⟨nofun, rfl⟩
        | some a =>
          simp only at h3
          split at h3
          · rename_i hrel
            cases h3
            exact .inr ⟨rfl, hvalid, hbits, ⟨a, hfound, Bool.or_eq_true_iff.mp hrel⟩, rfl⟩
          · cases h3
            exact .inl ⟨nofun, rfl⟩
      · cases h2
        exact .inl ⟨nofun, rfl⟩

theorem stateChangeRequest_unplug {addr size nbBlocks a : Nat}
    (hvalid : validRange checks mem.config addr size = .ok true)
    (hbits : checkBitmap ((addr - mem.config.addr) / mem.config.blockSize) nbBlocks memState true = true)
    (ha : hostAddr checks mem (addr - mem.config.addr) size = .ok (some a))
    (hrel : release host mem (addr - mem.config.addr) a size = true) :
    stateChangeRequest checks host mem memState addr size nbBlocks false =
      .ok (.ack, setBitmap ((addr - mem.config.addr) / mem.config.blockSize) nbBlocks memState false) := by
  unfold stateChangeRequest
  rw [show exceeds checks mem false size = .ok false from rfl, ok_bind]
  simp only [hvalid, ok_bind, Bool.not_false, hbits, if_true, ha, hrel, Bool.or_true]

/-! ## One block of a request to unplug all -/

/-- The system calls succeed for the block. -/
def Frees (checks : Bool) (host : Host) (mem : Mem) (x : Nat) : Prop :=
  ∃ a, hostAddr checks mem (x * mem.config.blockSize) mem.config.blockSize = .ok (some a) ∧
    release host mem (x * mem.config.blockSize) a mem.config.blockSize = true

/-- No request is refused for its address. -/
structure Reachable (mem : Mem) : Prop where
  aligned : mem.config.addr % mem.config.blockSize = 0
  fits : mem.config.addr + mem.config.usableRegionSize ≤ U64.max

theorem unplugBlock {x : Nat} (hb : mem.config.blockSize = defaultBlockSize)
    (hu : mem.config.usableRegionSize ≤ U64.max) (hx : Covered mem x) (hplugged : memState[x]? = some true)
    (h : stateChangeRequest checks host mem memState (mem.config.addr + x * mem.config.blockSize)
      mem.config.blockSize 1 false = .ok (resp, memState')) :
    ((Reachable mem ∧ Frees checks host mem x) ∧ resp = .ack ∧ memState' = memState.set x false) ∨
      (¬ (Reachable mem ∧ Frees checks host mem x) ∧ resp ≠ .ack ∧ memState' = memState) := by
  have hpos : 0 < mem.config.blockSize := by
    rw [hb]
    decide
  have hoffset : mem.config.addr + x * mem.config.blockSize - mem.config.addr = x * mem.config.blockSize := by omega
  have hindex : x * mem.config.blockSize / mem.config.blockSize = x := Nat.mul_div_cancel _ hpos
  rcases stateChangeRequest_cases h with ⟨hresp, hsame⟩ | ⟨hresp, hvalid, hbits, ⟨a, ha, hrel⟩, hset⟩
  · right
    refine ⟨?_, hresp, hsame⟩
    rintro ⟨hreach, a, ha, hrel⟩
    have husable := hx.usable
    rw [Nat.succ_mul] at husable
    have hin : InUsable mem.config (mem.config.addr + x * mem.config.blockSize) mem.config.blockSize :=
      ⟨by rw [Nat.add_mul_mod_self_right, hreach.aligned], hpos, by omega, by omega, hreach.fits⟩
    have hbit : checkBitmap x 1 memState true = true := by
      obtain ⟨hlt, hget⟩ := List.getElem?_eq_some_iff.mp hplugged
      rw [checkBitmap, List.drop_eq_getElem_cons hlt, hget]
      rfl
    rw [stateChangeRequest_unplug (validRange_of hin (Nat.mod_self _)) (by rwa [hoffset, hindex])
      (by rwa [hoffset]) (by rwa [hoffset])] at h
    cases h
    exact hresp rfl
  · left
    rw [hoffset] at hbits ha hrel hset
    rw [hindex] at hbits hset
    have hin := validRange_true hu hvalid
    refine ⟨⟨⟨?_, hin.fits⟩, a, ha, hrel.resolve_left nofun⟩, hresp, ?_⟩
    · have haligned := hin.aligned
      rwa [Nat.add_mul_mod_self_right] at haligned
    · rw [hset, setBitmap, fill_one]

/-! ## The loop -/

/-- How a request to unplug all ends that has come to the block `x`, with `n` blocks to go. -/
inductive Unplugged (checks : Bool) (host : Host) (mem : Mem) (memState : List Bool) (x n : Nat) (resp : Resp)
    (memState' : List Bool) : Prop where
  | all (hresp : resp = .ack) (hout : memState' = fill memState x n false)
      (hfreed : ∀ k, x ≤ k → k < x + n → memState[k]? = some true → Reachable mem ∧ Frees checks host mem k)
  | stopped (y : Nat) (hxy : x ≤ y) (hresp : resp ≠ .ack) (hout : memState' = fill memState x (y - x) false)
      (hplugged : memState[y]? = some true) (hkept : ¬ (Reachable mem ∧ Frees checks host mem y))
      (hfreed : ∀ k, x ≤ k → k < y → memState[k]? = some true → Reachable mem ∧ Frees checks host mem k)

/-- One more block before the others. -/
theorem Unplugged.cons {x n : Nat} (h : Unplugged checks host mem (memState.set x false) (x + 1) n resp memState')
    (hx : memState[x]? = some true → Reachable mem ∧ Frees checks host mem x) :
    Unplugged checks host mem memState x (n + 1) resp memState' := by
  have hother : ∀ k, x + 1 ≤ k → (memState.set x false)[k]? = memState[k]? := by
    intro k hk
    exact List.getElem?_set_ne (by omega)
  cases h with
  | all hresp hout hfreed =>
    refine .all hresp (by rw [hout, fill_set]) ?_
    intro k hk hlt hplugged
    by_cases heq : k = x
    · subst heq
      exact hx hplugged
    · exact hfreed k (by omega) (by omega) (by rwa [hother k (by omega)])
  | stopped y hxy hresp hout hplugged hkept hfreed =>
    refine .stopped y (by omega) hresp ?_ (by rwa [← hother y hxy]) hkept ?_
    · rw [hout, fill_set, show y - (x + 1) + 1 = y - x by omega]
    · intro k hk hlt hbit
      by_cases heq : k = x
      · subst heq
        exact hx hbit
      · exact hfreed k (by omega) hlt (by rwa [hother k (by omega)])

theorem unplugLoop_unplugged {x n : Nat} (hb : mem.config.blockSize = defaultBlockSize)
    (hu : mem.config.usableRegionSize ≤ U64.max) (hcov : ∀ k, memState[k]? = some true → Covered mem k)
    (h : unplugLoop checks host mem memState x n = .ok (resp, memState')) :
    Unplugged checks host mem memState x n resp memState' := by
  induction n generalizing memState x with
  | zero =>
    cases h
    refine .all rfl ?_ (by intro k hk hlt; omega)
    exact (fill_eq_self (by intro k hk hlt; omega)).symm
  | succ n ih =>
    unfold unplugLoop at h
    split at h
    · cases h
    · rename_i hget
      obtain ⟨hlt, hval⟩ := List.getElem?_eq_some_iff.mp hget
      refine .cons ?_ (by rw [hget]; exact nofun)
      rw [show memState.set x false = memState by rw [← hval, List.set_getElem_self]]
      exact ih hcov h
    · rename_i hget
      have hx := hcov x hget
      obtain ⟨addr, haddr, hreq⟩ := bind_eq_ok.mp h
      have hfits := hx.fits
      rw [Nat.succ_mul] at hfits
      rw [add, U64.add_of_le (by omega)] at haddr
      cases haddr
      obtain ⟨⟨resp1, memState1⟩, hchange, hrest⟩ := bind_eq_ok.mp hreq
      rcases unplugBlock hb hu hx hget hchange with ⟨hfree, rfl, rfl⟩ | ⟨hkept, hresp, rfl⟩
      · simp only at hrest
        rw [List.set_set] at hrest
        refine .cons (ih ?_ hrest) (fun _ => hfree)
        intro k hk
        by_cases heq : x = k
        · subst heq
          rw [List.getElem?_set_self (List.getElem?_eq_some_iff.mp hget).1] at hk
          cases hk
        · exact hcov k (by rwa [List.getElem?_set_ne heq] at hk)
      · have hout : resp1 = resp ∧ memState1 = memState' := by
          cases resp1 with
          | ack => exact absurd rfl hresp
          | nack | error =>
            cases hrest
            exact ⟨rfl, rfl⟩
        obtain ⟨rfl, rfl⟩ := hout
        refine .stopped x (Nat.le_refl _) hresp ?_ hget hkept (by intro k hk hlt; omega)
        exact (fill_eq_self (by intro k hk hlt; omega)).symm

end Kata.VirtioMem
