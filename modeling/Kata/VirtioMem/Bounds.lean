import Kata.VirtioMem.Mapping

/-!
# Kata.VirtioMem.Bounds

Which requests of the guest the virtio-mem device handles without an overflow and without an index
out of range.

A plug or unplug request is only carried out after `virtio_mem_valid_range`, so nothing behind it
can overflow (`stateChangeRequest_returns`). A request for the state of blocks goes on after the
check has failed, and subtracts the start of the region from an address below it.
`processRequest_safe_iff` has the exact condition, for every state that a device can be in.

Overflow checks are on for the request in question. The calls of the host before may have been made
by either build; a request that has not overflowed does the same in both.
-/

namespace Kata.VirtioMem

open Lib Lib.Window

variable {checks : Bool} {host : Host} {mem mem' : Mem} {memState memState' : List Bool} {resp : Resp}

/-! ## The range of a request -/

/-- The end of the usable region is a `u64`. -/
def Fits (config : VirtioMemConfig) : Prop := config.addr + config.usableRegionSize ≤ U64.max

/-- A range that `virtio_mem_valid_range` compares with the end of the usable region. -/
structure Aims (config : VirtioMemConfig) (addr size : Nat) : Prop where
  aligned : addr % config.blockSize = 0
  whole : size % config.blockSize = 0
  stop : addr + size ≤ U64.max
  pos : size ≠ 0
  start : config.addr ≤ addr

section ValidRange

variable {config : VirtioMemConfig} {addr size : Nat}

theorem validRange_of_not_aims (h : ¬ Aims config addr size) : validRange true config addr size = .ok false := by
  unfold validRange
  split
  · rfl
  split
  · rfl
  split
  · rfl
  · exact absurd ⟨by omega, by omega, by omega, by omega, by omega⟩ h

theorem validRange_of_aims (h : Aims config addr size) :
    validRange true config addr size = (do
      let top ← add true config.addr config.usableRegionSize
      if addr ≥ top then .ok false else .ok (addr + size ≤ top)) := by
  obtain ⟨haligned, hwhole, hstop, hpos, hstart⟩ := h
  unfold validRange
  rw [if_neg (by omega), if_neg (by omega), if_neg (by omega)]

theorem validRange_returns : Returns (validRange true config addr size) ↔ (Aims config addr size → Fits config) := by
  by_cases h : Aims config addr size
  · rw [validRange_of_aims h, returns_bind]
    constructor
    · rintro ⟨top, htop, _⟩ _
      exact (U64.add_checked_eq_ok.mp htop).1
    · intro hfits
      refine ⟨_, U64.add_of_le (hfits h), ?_⟩
      split
      · exact returns_ok _
      · exact returns_ok _
  · rw [validRange_of_not_aims h]
    exact iff_of_true (returns_ok _) fun haims => absurd haims h

end ValidRange

/-! ## Host addresses -/

theorem hostAddr_returns {offset size : Nat} (h : mem.Ready) (hpos : 0 < size)
    (hin : offset + size ≤ mem.config.regionSize) : Returns (hostAddr true mem offset size) := by
  unfold hostAddr
  split
  · rename_i hmulti
    split
    · exact returns_ok _
    split
    · exact returns_ok _
    · exact returns_ok _
    · rename_i base guest hat
      have hend := h.backed _ base guest hat
      rw [Mem.span, if_pos hmulti, shiftRight_mapRegionShift] at hend
      rw [and_mapRegionMask]
      have hlt := Nat.mod_lt offset mapRegionSize_pos
      have hdiv := Nat.div_add_mod' offset mapRegionSize
      refine returns_bind.mpr ⟨_, U64.add_of_le ?_, returns_ok _⟩
      omega
  · rename_i hmulti
    split
    · rename_i hnone
      have hlen : mem.mapRegions.length = 1 := by
        rw [h.length, Mem.slotNum, if_neg hmulti]
      rw [mappedAt, Option.map_eq_none_iff, List.getElem?_eq_none_iff] at hnone
      omega
    · exact returns_ok _
    · rename_i base guest hat
      have hend := h.backed _ base guest hat
      rw [Mem.span, if_neg hmulti] at hend
      refine returns_bind.mpr ⟨_, U64.add_of_le ?_, returns_ok _⟩
      omega

/-! ## Plug and unplug requests -/

theorem exceeds_returns {plug : Bool} {size : Nat} :
    Returns (exceeds true mem plug size) ↔ (plug = true → mem.config.pluggedSize + size ≤ U64.max) := by
  cases plug with
  | false => exact iff_of_true (returns_ok _) nofun
  | true =>
    rw [exceeds, if_pos rfl, returns_bind]
    constructor
    · rintro ⟨sum, hsum, _⟩ _
      exact (U64.add_checked_eq_ok.mp hsum).1
    · intro hle
      exact ⟨_, U64.add_of_le (hle rfl), returns_ok _⟩

theorem exceeds_eq_false {plug : Bool} {size : Nat} (hle : plug = true → mem.config.pluggedSize + size ≤ U64.max) :
    exceeds true mem plug size = .ok false ↔ (plug = true → mem.config.pluggedSize + size ≤
      mem.config.requestedSize) := by
  cases plug with
  | false => exact iff_of_true rfl nofun
  | true =>
    rw [exceeds, if_pos rfl, add, U64.add_of_le (hle rfl), ok_bind, pure_eq_ok, Except.ok.injEq,
      decide_eq_false_iff_not,
      Nat.not_lt]
    exact ⟨fun h _ => h, fun h => h rfl⟩

/-- A request whose range is valid does not overflow any more. -/
theorem changed_returns {addr size nbBlocks : Nat} {plug : Bool} (hm : mem.Sound) (hr : mem.Ready)
    (hvalid : validRange true mem.config addr size = .ok true) :
    Returns (if checkBitmap ((addr - mem.config.addr) / mem.config.blockSize) nbBlocks memState !plug then do
        match ← hostAddr true mem (addr - mem.config.addr) size with
        | none => (.ok (.error, memState) : Except Panic (Resp × List Bool))
        | some hostAddr =>
          if plug || release host mem (addr - mem.config.addr) hostAddr size then
            .ok (.ack, setBitmap ((addr - mem.config.addr) / mem.config.blockSize) nbBlocks memState plug)
          else .ok (.error, memState)
      else .ok (.error, memState)) := by
  have hin := validRange_true (Nat.le_trans hm.usable hm.region) hvalid
  have husable := hm.usable
  have hstart := hin.start
  have hstop := hin.stop
  split
  · obtain ⟨found, hfound⟩ := hostAddr_returns hr hin.pos
      (show addr - mem.config.addr + size ≤ mem.config.regionSize by omega)
    refine returns_bind.mpr ⟨found, hfound, ?_⟩
    cases found with
    | none => exact returns_ok _
    | some a =>
      dsimp only
      split
      · exact returns_ok _
      · exact returns_ok _
  · exact returns_ok _

theorem stateChangeRequest_returns {addr size nbBlocks : Nat} {plug : Bool} (hm : mem.Sound) (hr : mem.Ready) :
    Returns (stateChangeRequest true host mem memState addr size nbBlocks plug) ↔
      (plug = true → mem.config.pluggedSize + size ≤ U64.max) ∧
      ((plug = true → mem.config.pluggedSize + size ≤ mem.config.requestedSize) → Aims mem.config addr size →
        Fits mem.config) := by
  rw [stateChangeRequest, returns_bind]
  constructor
  · rintro ⟨tooMuch, hexceeds, hrest⟩
    have hsum := exceeds_returns.mp ⟨tooMuch, hexceeds⟩
    refine ⟨hsum, ?_⟩
    intro hle
    rw [(exceeds_eq_false hsum).mpr hle] at hexceeds
    cases hexceeds
    obtain ⟨valid, hvalid, _⟩ := returns_bind.mp hrest
    exact validRange_returns.mp ⟨valid, hvalid⟩
  · rintro ⟨hsum, hfits⟩
    obtain ⟨tooMuch, hexceeds⟩ := exceeds_returns.mpr hsum
    refine ⟨tooMuch, hexceeds, ?_⟩
    cases tooMuch with
    | true => exact returns_ok _
    | false =>
      obtain ⟨valid, hvalid⟩ := validRange_returns.mpr (hfits ((exceeds_eq_false hsum).mp hexceeds))
      refine returns_bind.mpr ⟨valid, hvalid, ?_⟩
      cases valid with
      | false => exact returns_ok _
      | true => exact changed_returns hm hr hvalid

/-! ## Devices that have been in use -/

namespace Active

/-- What holds of a device whatever has been asked of it. A request to unplug all that stops halfway
leaves the plugged size too large. -/
structure Held (s : Active) : Prop where
  mem : s.mem.Sound
  ready : s.mem.Ready
  length : s.memState.length = s.mem.config.regionSize / s.mem.config.blockSize
  plugged : s.mem.config.blockSize * s.memState.count true ≤ s.mem.config.pluggedSize
  covered : ∀ x, s.memState[x]? = some true → Covered s.mem x

variable {s s' : Active} {req : VirtioMemReq}

theorem Held.usable_le (h : s.Held) : s.mem.config.usableRegionSize ≤ U64.max :=
  Nat.le_trans h.mem.usable h.mem.region

/-- A change that is carried out, if the new plugged size is large enough. -/
theorem Held.changed {plug : Bool} {p : Nat} (hs : s.Held)
    (h : stateChangeRequest true host s.mem s.memState req.addr (s.size req) req.nbBlocks.toNat plug =
      .ok (.ack, memState')) (hp : s.mem.config.blockSize * memState'.count true ≤ p) :
    (s.setPlugged p memState').Held := by
  obtain ⟨i, rfl, _, _, hcov⟩ := stateChange_done hs.mem hs.length h
  refine ⟨⟨hs.mem.block, hs.mem.region, hs.mem.usable⟩, ⟨hs.ready.length, hs.ready.backed⟩,
    length_fill.trans hs.length, hp, covered_fill hcov hs.covered⟩

theorem Held.cleared {i n p : Nat} (hs : s.Held)
    (hp : s.mem.config.blockSize * (fill s.memState i n false).count true ≤ p) :
    (s.setPlugged p (fill s.memState i n false)).Held := by
  refine ⟨⟨hs.mem.block, hs.mem.region, hs.mem.usable⟩, ⟨hs.ready.length, hs.ready.backed⟩,
    length_fill.trans hs.length, hp, ?_⟩
  intro x hx
  have hx' : (fill s.memState i n false)[x]? = some true := hx
  have hlt : x < s.memState.length := by
    have hlen := (List.getElem?_eq_some_iff.mp hx').1
    rwa [length_fill] at hlen
  by_cases hin : i ≤ x ∧ x < i + n
  · rw [getElem?_fill_inside hin.1 hin.2 hlt] at hx'
    cases hx'
  · rw [getElem?_fill_outside (by omega)] at hx'
    exact (hs.covered x hx').setPlugged

theorem Held.size_le (hs : s.Held) {i n : Nat} (hall : All s.memState i n true) :
    s.mem.config.blockSize * (fill s.memState i n false).count true + n * s.mem.config.blockSize ≤
      s.mem.config.pluggedSize := by
  have hle := hs.plugged
  rw [← count_fill_old Bool.false_ne_true hall, Nat.mul_add, Nat.mul_comm _ n] at hle
  exact hle

theorem plug_held (hs : s.Held) (h : s.plug true host req = .ok (resp, s')) : s'.Held := by
  obtain ⟨⟨resp1, memState1⟩, hchange, hrest⟩ := bind_eq_ok.mp h
  rcases stateChangeRequest_cases hchange with ⟨hresp, rfl⟩ | ⟨rfl, _⟩
  · rw [(settle_other hresp hrest).2]
    exact hs
  · obtain ⟨q, hq, hret⟩ := bind_eq_ok.mp hrest
    cases hret
    obtain ⟨_, rfl⟩ := U64.add_checked_eq_ok.mp hq
    obtain ⟨i, hfill, hall, _, _⟩ := stateChange_done hs.mem hs.length hchange
    refine hs.changed hchange ?_
    rw [hfill, count_fill_new Bool.false_ne_true hall, Nat.mul_add, size, Nat.mul_comm _ req.nbBlocks.toNat]
    exact Nat.add_le_add_right hs.plugged _

theorem unplug_held (hs : s.Held) (h : s.unplug true host req = .ok (resp, s')) : s'.Held := by
  obtain ⟨⟨resp1, memState1⟩, hchange, hrest⟩ := bind_eq_ok.mp h
  rcases stateChangeRequest_cases hchange with ⟨hresp, rfl⟩ | ⟨rfl, _⟩
  · rw [(settle_other hresp hrest).2]
    exact hs
  · obtain ⟨q, hq, hret⟩ := bind_eq_ok.mp hrest
    cases hret
    obtain ⟨i, hfill, hall, _, _⟩ := stateChange_done hs.mem hs.length hchange
    have hsize := hs.size_le hall
    rw [sub, size, U64.sub_of_le (by omega)] at hq
    cases hq
    refine hs.changed hchange ?_
    rw [hfill]
    omega

theorem unplugAll_held (hs : s.Held) (h : s.unplugAll true host = .ok (resp, s')) : s'.Held := by
  obtain ⟨⟨resp1, memState1⟩, hloop, hrest⟩ := bind_eq_ok.mp h
  cases unplugLoop_unplugged hs.mem.block hs.usable_le hs.covered hloop with
  | all hresp hout hfreed =>
    subst hresp
    cases hrest
    have hlen : s.mem.config.regionSize / s.mem.config.blockSize = s.memState.length := hs.length.symm
    rw [hlen] at hout
    rw [hout]
    refine hs.cleared ?_
    rw [count_fill_all]
    exact Nat.le_refl 0
  | stopped y hxy hresp hout hplugged hkept hfreed =>
    rw [(settle_other hresp hrest).2, hout]
    have hle : s.mem.config.blockSize * (fill s.memState 0 (y - 0) false).count true ≤ s.mem.config.pluggedSize :=
      Nat.le_trans (Nat.mul_le_mul_left _ (count_fill_le Bool.false_ne_true)) hs.plugged
    exact hs.cleared hle

theorem processRequest_held {answer : Option VirtioMemResp} (hs : s.Held)
    (h : s.processRequest true host req = .ok (answer, s')) : s'.Held := by
  unfold processRequest at h
  split at h
  · obtain ⟨⟨resp, s1⟩, hcall, hret⟩ := bind_eq_ok.mp h
    cases hret
    exact plug_held hs hcall
  split at h
  · obtain ⟨⟨resp, s1⟩, hcall, hret⟩ := bind_eq_ok.mp h
    cases hret
    exact unplug_held hs hcall
  split at h
  · obtain ⟨⟨resp, s1⟩, hcall, hret⟩ := bind_eq_ok.mp h
    cases hret
    exact unplugAll_held hs hcall
  split at h
  · obtain ⟨⟨resp, state⟩, _, hret⟩ := bind_eq_ok.mp h
    cases hret
    exact hs
  · cases h
    exact hs

/-! ## One request -/

/-- The requests for which the end of the usable region is computed. -/
def Looks (s : Active) (req : VirtioMemReq) : Prop :=
  (req.reqType = 0 ∧ s.mem.config.pluggedSize + s.size req ≤ s.mem.config.requestedSize ∧
    Aims s.mem.config req.addr (s.size req)) ∨
  (req.reqType = 1 ∧ Aims s.mem.config req.addr (s.size req)) ∨
  (req.reqType = 2 ∧ s.mem.config.addr % s.mem.config.blockSize = 0 ∧ true ∈ s.memState) ∨
  (req.reqType = 3 ∧ Aims s.mem.config req.addr (s.size req))

/-- What the device relies on when it is given a request. -/
structure Handles (s : Active) (req : VirtioMemReq) : Prop where
  plug : req.reqType = 0 → s.mem.config.pluggedSize + s.size req ≤ U64.max
  state : req.reqType = 3 → s.mem.config.addr ≤ req.addr
  top : s.Looks req → Fits s.mem.config

theorem settle_returns {p : Except Panic Nat} {out : Resp × List Bool} (h : out.1 = .ack → Returns p) :
    Returns (s.settle p out) := by
  obtain ⟨resp, memState⟩ := out
  cases resp with
  | ack => exact returns_bind.mpr ((h rfl).imp fun q hq => ⟨hq, returns_ok _⟩)
  | nack | error => exact returns_ok _

theorem plug_returns (hs : s.Held) :
    Returns (s.plug true host req) ↔ s.mem.config.pluggedSize + s.size req ≤ U64.max ∧
      (s.mem.config.pluggedSize + s.size req ≤ s.mem.config.requestedSize →
        Aims s.mem.config req.addr (s.size req) → Fits s.mem.config) := by
  have hchange := @stateChangeRequest_returns host s.mem s.memState req.addr (s.size req) req.nbBlocks.toNat true
    hs.mem hs.ready
  simp only [true_imp_iff] at hchange
  rw [← hchange, plug, returns_bind]
  constructor
  · rintro ⟨out, hout, _⟩
    exact ⟨out, hout⟩
  · rintro ⟨out, hout⟩
    exact ⟨out, hout, settle_returns fun _ => ⟨_, U64.add_of_le (hchange.mp ⟨out, hout⟩).1⟩⟩

theorem unplug_returns (hs : s.Held) :
    Returns (s.unplug true host req) ↔ (Aims s.mem.config req.addr (s.size req) → Fits s.mem.config) := by
  have hchange := @stateChangeRequest_returns host s.mem s.memState req.addr (s.size req) req.nbBlocks.toNat false
    hs.mem hs.ready
  simp only [Bool.false_eq_true, false_imp_iff, true_and, true_imp_iff] at hchange
  rw [← hchange, unplug, returns_bind]
  constructor
  · rintro ⟨out, hout, _⟩
    exact ⟨out, hout⟩
  · rintro ⟨⟨resp, memState1⟩, hout⟩
    refine ⟨_, hout, settle_returns ?_⟩
    rintro rfl
    obtain ⟨i, _, hall, _, _⟩ := stateChange_done hs.mem hs.length hout
    have hsize := hs.size_le hall
    exact ⟨_, U64.sub_of_le (by rw [size]; omega)⟩

theorem stateRequest_returns {addr nbBlocks : Nat} :
    Returns (stateRequest true mem memState addr nbBlocks) ↔ mem.config.addr ≤ addr ∧
      (Aims mem.config addr (nbBlocks * mem.config.blockSize) → Fits mem.config) := by
  rw [stateRequest, returns_bind, ← validRange_returns]
  constructor
  · rintro ⟨valid, hvalid, hrest⟩
    obtain ⟨offset, hoffset, _⟩ := returns_bind.mp hrest
    refine ⟨?_, valid, hvalid⟩
    by_contra hlt
    rw [sub, U64.sub, if_neg hlt] at hoffset
    cases hoffset
  · rintro ⟨hle, valid, hvalid⟩
    exact ⟨valid, hvalid, returns_bind.mpr ⟨_, U64.sub_of_le hle, returns_ok _⟩⟩

/-- The address of a plugged block aims at the block, if the region is aligned. -/
theorem aims_block {x : Nat} (hm : mem.Sound) (hx : Covered mem x) :
    Aims mem.config (mem.config.addr + x * mem.config.blockSize) mem.config.blockSize ↔
      mem.config.addr % mem.config.blockSize = 0 := by
  have hpos := hm.pos
  have hfits := hx.fits
  rw [Nat.succ_mul] at hfits
  constructor
  · intro h
    have haligned := h.aligned
    rwa [Nat.add_mul_mod_self_right] at haligned
  · intro haligned
    refine ⟨?_, Nat.mod_self _, by omega, by omega, by omega⟩
    rw [Nat.add_mul_mod_self_right]
    exact haligned

/-- If no block is plugged, or each of them can be asked for, the loop comes to an end. -/
theorem unplugLoop_returns {x n : Nat} (hm : mem.Sound) (hr : mem.Ready) (hlen : x + n ≤ memState.length)
    (hcov : ∀ k, memState[k]? = some true → Covered mem k)
    (hfits : true ∈ memState → mem.config.addr % mem.config.blockSize = 0 → Fits mem.config) :
    Returns (unplugLoop true host mem memState x n) := by
  induction n generalizing memState x with
  | zero => exact returns_ok _
  | succ n ih =>
    unfold unplugLoop
    split
    · rename_i hnone
      rw [List.getElem?_eq_none_iff] at hnone
      omega
    · exact ih (by omega) hcov hfits
    · rename_i hplugged
      have hx := hcov x hplugged
      have hblock := hx.fits
      rw [Nat.succ_mul] at hblock
      refine returns_bind.mpr ⟨_, U64.add_of_le (by omega), ?_⟩
      have hmem : true ∈ memState := List.mem_of_getElem? hplugged
      have hchange := (@stateChangeRequest_returns host mem memState (mem.config.addr + x * mem.config.blockSize)
        mem.config.blockSize 1 false hm hr).mpr
          ⟨nofun, fun _ haims => hfits hmem ((aims_block hm hx).mp haims)⟩
      obtain ⟨⟨resp, memState1⟩, hout⟩ := hchange
      refine returns_bind.mpr ⟨_, hout, ?_⟩
      rcases unplugBlock hm.block (Nat.le_trans hm.usable hm.region) hx hplugged hout with
        ⟨_, rfl, rfl⟩ | ⟨_, hresp, rfl⟩
      · -- the block is no longer plugged, and nothing else has changed
        have hsub : ∀ k : Nat, (memState.set x false)[k]? = some true → memState[k]? = some true := by
          intro k hk
          by_cases heq : x = k
          · subst heq
            rw [List.getElem?_set_self (List.getElem?_eq_some_iff.mp hplugged).1] at hk
            cases hk
          · rwa [List.getElem?_set_ne heq] at hk
        simp only [List.set_set]
        refine ih (by rw [List.length_set]; omega) (fun k hk => hcov k (hsub k hk)) ?_
        intro hstill
        obtain ⟨k, hk⟩ := List.getElem?_of_mem hstill
        exact hfits (List.mem_of_getElem? (hsub k hk))
      · cases resp with
        | ack => exact absurd rfl hresp
        | nack | error => exact returns_ok _

theorem unplugLoop_fits {x n k : Nat} (hm : mem.Sound) (hr : mem.Ready)
    (hcov : ∀ k, memState[k]? = some true → Covered mem k)
    (h : Returns (unplugLoop true host mem memState x n)) (hk : memState[k]? = some true) (hx : x ≤ k)
    (hn : k < x + n) (haligned : mem.config.addr % mem.config.blockSize = 0) : Fits mem.config := by
  induction n generalizing x with
  | zero => omega
  | succ n ih =>
    unfold unplugLoop at h
    split at h
    · exact absurd h (not_returns_error _)
    · rename_i hfalse
      have hne : x ≠ k := by
        intro heq
        rw [heq, hk] at hfalse
        cases hfalse
      exact ih h (by omega) (by omega)
    · rename_i hplugged
      have hcovered := hcov x hplugged
      have hblock := hcovered.fits
      rw [Nat.succ_mul] at hblock
      obtain ⟨addr, haddr, hrest⟩ := returns_bind.mp h
      obtain ⟨_, rfl⟩ := U64.add_checked_eq_ok.mp haddr
      obtain ⟨out, hout, _⟩ := returns_bind.mp hrest
      exact ((stateChangeRequest_returns hm hr).mp ⟨out, hout⟩).2 nofun ((aims_block hm hcovered).mpr haligned)

theorem unplugAll_returns (hs : s.Held) :
    Returns (s.unplugAll true host) ↔
      (s.mem.config.addr % s.mem.config.blockSize = 0 → true ∈ s.memState → Fits s.mem.config) := by
  rw [unplugAll, returns_bind, VirtioMem.unplugAll]
  constructor
  · rintro ⟨out, hout, _⟩ haligned hplugged
    obtain ⟨k, hk⟩ := List.getElem?_of_mem hplugged
    have hlt : k < s.memState.length := (List.getElem?_eq_some_iff.mp hk).1
    have hlen := hs.length
    exact unplugLoop_fits hs.mem hs.ready hs.covered ⟨out, hout⟩ hk (Nat.zero_le _) (by omega) haligned
  · intro hfits
    obtain ⟨out, hout⟩ := unplugLoop_returns hs.mem hs.ready
      (show 0 + s.mem.config.regionSize / s.mem.config.blockSize ≤
        s.memState.length by rw [hs.length]; omega) hs.covered
      fun hplugged haligned => hfits haligned hplugged
    exact ⟨out, hout, settle_returns fun _ => returns_ok _⟩

theorem returns_answered {call : Except Panic (Resp × Active)} :
    Returns (do
      let (resp, s) ← call
      return (some (VirtioMemResp.mk resp .plugged), s) : Except Panic (Option VirtioMemResp × Active)) ↔
      Returns call := by
  rw [returns_bind]
  exact ⟨fun ⟨out, hout, _⟩ => ⟨out, hout⟩, fun ⟨out, hout⟩ => ⟨out, hout, returns_ok _⟩⟩

theorem handles_iff : s.Handles req ↔ (req.reqType = 0 → s.mem.config.pluggedSize + s.size req ≤ U64.max) ∧
      (req.reqType = 3 → s.mem.config.addr ≤ req.addr) ∧ (s.Looks req → Fits s.mem.config) :=
  ⟨fun h => ⟨h.plug, h.state, h.top⟩, fun h => ⟨h.1, h.2.1, h.2.2⟩⟩

theorem processRequest_returns (hs : s.Held) : Returns (s.processRequest true host req) ↔ s.Handles req := by
  rw [handles_iff]
  unfold processRequest
  split
  · rename_i htype
    rw [returns_answered, plug_returns hs]
    simp [Looks, htype]
  split
  · rename_i htype
    rw [returns_answered, unplug_returns hs]
    simp [Looks, htype]
  split
  · rename_i htype
    rw [returns_answered, unplugAll_returns hs]
    simp [Looks, htype]
  split
  · rename_i htype
    rw [returns_bind]
    refine (exists_congr fun out => and_iff_left (returns_ok _)).trans ?_
    show Returns (stateRequest true s.mem s.memState req.addr req.nbBlocks.toNat) ↔ _
    rw [stateRequest_returns]
    simp [Looks, htype, size]
  · rename_i h0 h1 h2 h3
    simp [Looks, h0, h1, h2, h3]

end Active

theorem Mem.activate_held {s : Active} (hb : Prepared checks mem) (h : mem.activate = some s) : s.Held := by
  have hsound := activate_sound hb.built h
  unfold activate at h
  split at h
  · cases h
  · rename_i hlen
    cases h
    refine ⟨hsound.mem, ⟨?_, hb.slotted.backed⟩, hsound.length, Nat.le_of_eq hsound.plugged.symm, hsound.covered⟩
    by_contra hne
    exact hlen hne

/-! ## Every request -/

namespace Active

/-- A request that has not overflowed, or a call of the host. -/
inductive Happens (checks : Bool) (s : Active) : Op → Active → Prop where
  | request {req : VirtioMemReq} {host : Host} {answer : Option VirtioMemResp} {s' : Active}
      (h : s.processRequest true host req = .ok (answer, s')) : Happens checks s (.request req host) s'
  | setRequestedSize {requestedSizeMb : Nat} {factory : Factory} {notified : Bool} {res : Except Error Unit}
      {mem' : Mem} (hf : factory.Genuine)
      (h : s.mem.setRequestedSize checks factory requestedSizeMb notified = .ok (res, mem')) :
      Happens checks s (.setRequestedSize requestedSizeMb factory notified) { s with mem := mem' }

variable {s s' : Active} {req : VirtioMemReq}

theorem Held.happens {op : Op} (hs : s.Held) (h : Happens checks s op s') : s'.Held := by
  cases h with
  | request h => exact processRequest_held hs h
  | setRequestedSize hf h =>
    have hgrows := Mem.setRequestedSize_grows h
    obtain ⟨hslotted, hlen, hnum⟩ :=
      Mem.setRequestedSize_slotted hf hs.mem ⟨.inr hs.ready.length, hs.ready.backed⟩ h
    refine ⟨hgrows.sound hs.mem, ⟨?_, hslotted.backed⟩, ?_, ?_, ?_⟩
    · exact hlen.trans (hs.ready.length.trans hnum.symm)
    · rw [hgrows.region, hgrows.block]
      exact hs.length
    · rw [hgrows.block, hgrows.plugged]
      exact hs.plugged
    · intro x hx
      exact hgrows.covered (hs.covered x hx)

/-- A request is handled within a `u64` and within the bitmap and the map regions. The operations
that the source leaves unchecked here are the size of the request, the offset of a valid range and
the offset of a block. -/
structure Safe (host : Host) (s : Active) (req : VirtioMemReq) : Prop where
  returns : Returns (s.processRequest true host req)
  size : s.size req ≤ U64.max
  offset : ∀ addr size, validRange true s.mem.config addr size = .ok true →
    s.mem.config.addr ≤ addr ∧ addr - s.mem.config.addr + size ≤ U64.max
  block : ∀ x < s.memState.length, x * s.mem.config.blockSize ≤ U64.max

theorem Held.safe_iff (hs : s.Held) : Safe host s req ↔ s.Handles req := by
  constructor
  · intro h
    exact (processRequest_returns hs).mp h.returns
  · intro h
    refine ⟨(processRequest_returns hs).mpr h, ?_, ?_, ?_⟩
    · rw [size, hs.mem.block]
      calc req.nbBlocks.toNat * defaultBlockSize
          ≤ 2 ^ 16 * defaultBlockSize := Nat.mul_le_mul_right _ (Nat.le_of_lt req.nbBlocks.toNat_lt)
        _ ≤ U64.max := by decide
    · intro addr size hvalid
      have hin := validRange_true hs.usable_le hvalid
      have hstop := hin.stop
      have hfits := hin.fits
      exact ⟨hin.start, by omega⟩
    · intro x hx
      rw [hs.length] at hx
      calc x * s.mem.config.blockSize
          ≤ s.mem.config.regionSize / s.mem.config.blockSize * s.mem.config.blockSize :=
            Nat.mul_le_mul_right _ (Nat.le_of_lt hx)
        _ ≤ s.mem.config.regionSize := Nat.div_mul_le_self _ _
        _ ≤ U64.max := hs.mem.region

/-- For every device, however it has been set up and used, and for every request. -/
theorem processRequest_safe_iff {s0 : Active} {ops : List Op} (hprepared : Mem.Prepared checks mem)
    (hactive : mem.activate = some s0) (hrun : Run (Happens checks) s0 ops s) (host : Host) (req : VirtioMemReq) :
    Safe host s req ↔ s.Handles req := by
  have hs : s.Held := hrun.invariant (I := Held) (fun _ _ _ h hstep => h.happens hstep)
    (Mem.activate_held hprepared hactive)
  exact hs.safe_iff

theorem smallMem_prepared : Mem.Prepared true smallMem := by
  refine .setResource (.new smallMem_new) ?_ smallMem_setResource
  intro guestAddr len slot hostAddr h
  dsimp only at h
  split at h
  · rename_i hlen
    cases h
    rw [hlen]
    decide
  · cases h

/-- The state of the first block of the device, which is asked for with its own address. -/
theorem processRequest_safe_first : ∃ host, Safe host (small 0 []) ⟨3, 4294967296, 1⟩ := by
  have hactive : smallMem.activate = some (small 0 []) := by decide
  refine ⟨⟨fun _ _ => true, fun _ _ _ => true⟩, ?_⟩
  refine (processRequest_safe_iff smallMem_prepared hactive .nil _ _).mpr ⟨nofun, fun _ => by decide, ?_⟩
  intro _
  exact (by decide : 4294967296 + 268435456 ≤ U64.max)

/-- The state of a block at address 0, below the region. -/
theorem stateRequest_underflows :
    Mem.Prepared true smallMem ∧ smallMem.activate = some (small 0 []) ∧
    (small 0 []).processRequest true ⟨fun _ _ => true, fun _ _ _ => true⟩ ⟨3, 0, 1⟩ = .error .overflow :=
  ⟨smallMem_prepared, by decide, by decide⟩

end Active

end Kata.VirtioMem
