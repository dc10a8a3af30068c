import Kata.VirtioMem.Requests
import Kata.Lib.Runs

/-!
# Kata.VirtioMem.Accounting

The plugged size and the bitmap of the virtio-mem device agree.

Plug and unplug requests change both or none. A request to unplug all clears the bitmap block by
block and stops at the first block for which a system call fails; it then answers with an error and
leaves the plugged size as it was, while the blocks before are gone. `accounted_run` proves the
accounting for the runs in which this does not happen, and `unplugAll_stops_halfway` shows a run in
which it does.
-/

namespace Kata.VirtioMem

open Lib Window

variable {checks : Bool} {host : Host} {mem : Mem} {memState memState' : List Bool} {resp : Resp}

/-! ## The invariant -/

/-- The plugged size is that of the plugged blocks, and these are in the usable region. -/
structure Accounted (s : Active) : Prop where
  plugged : s.mem.config.pluggedSize = s.mem.config.blockSize * s.memState.count true
  usable : ∀ x, s.memState[x]? = some true → x * s.mem.config.blockSize < s.mem.config.usableRegionSize

structure Mem.Sound (mem : Mem) : Prop where
  block : mem.config.blockSize = defaultBlockSize
  region : mem.config.regionSize ≤ U64.max
  usable : mem.config.usableRegionSize ≤ mem.config.regionSize

theorem Mem.Sound.pos (h : mem.Sound) : 0 < mem.config.blockSize := by
  rw [h.block]
  decide

theorem Covered.setPlugged {s : Active} {x p : Nat} (h : Covered s.mem x) : Covered (s.setPlugged p memState).mem x :=
  ⟨h.usable, h.fits, h.mapped⟩

namespace Active

structure Sound (s : Active) : Prop where
  mem : s.mem.Sound
  length : s.memState.length = s.mem.config.regionSize / s.mem.config.blockSize
  plugged : s.mem.config.pluggedSize = s.mem.config.blockSize * s.memState.count true
  covered : ∀ x, s.memState[x]? = some true → Covered s.mem x

variable {s s' : Active} {req : VirtioMemReq}

theorem Sound.pos (h : s.Sound) : 0 < s.mem.config.blockSize := h.mem.pos

theorem Sound.usable_le (h : s.Sound) : s.mem.config.usableRegionSize ≤ U64.max :=
  Nat.le_trans h.mem.usable h.mem.region

theorem Sound.accounted (h : s.Sound) : Accounted s := by
  refine ⟨h.plugged, ?_⟩
  intro x hx
  have husable := (h.covered x hx).usable
  have hpos := h.pos
  rw [Nat.succ_mul] at husable
  omega

variable {plug : Bool}

/-- A request that is carried out changes `nbBlocks` entries, all of them in the usable region. -/
theorem stateChange_done (hm : s.mem.Sound)
    (hl : s.memState.length = s.mem.config.regionSize / s.mem.config.blockSize)
    (h : stateChangeRequest checks host s.mem s.memState req.addr (s.size req) req.nbBlocks.toNat plug =
      .ok (.ack, memState')) :
    ∃ i, memState' = fill s.memState i req.nbBlocks.toNat plug ∧ All s.memState i req.nbBlocks.toNat (!plug) ∧
      i + req.nbBlocks.toNat ≤ s.memState.length ∧
      ∀ x, i ≤ x → x < i + req.nbBlocks.toNat → Covered s.mem x := by
  rcases stateChangeRequest_cases h with ⟨hresp, _⟩ | ⟨_, hvalid, hbits, ⟨a, ha, _⟩, hset⟩
  · exact absurd rfl hresp
  · have hpos : 0 < s.mem.config.blockSize := hm.pos
    have hin := validRange_true (Nat.le_trans hm.usable hm.region) hvalid
    have hstop := hin.stop
    have hstart := hin.start
    have hfits := hin.fits
    have hle := Nat.div_mul_le_self (req.addr - s.mem.config.addr) s.mem.config.blockSize
    have hend : ((req.addr - s.mem.config.addr) / s.mem.config.blockSize + req.nbBlocks.toNat) *
        s.mem.config.blockSize ≤ (req.addr - s.mem.config.addr) + s.size req := by
      rw [Nat.add_mul, size]
      omega
    have hlen : (req.addr - s.mem.config.addr) / s.mem.config.blockSize + req.nbBlocks.toNat ≤ s.memState.length := by
      rw [hl, Nat.le_div_iff_mul_le hpos]
      have husable := hm.usable
      omega
    refine ⟨_, hset, checkBitmap_all hbits hlen, hlen, ?_⟩
    intro x hx hlt
    have hnext : (x + 1) * s.mem.config.blockSize ≤ _ := Nat.mul_le_mul_right _ (Nat.succ_le_of_lt hlt)
    refine ⟨by omega, by omega, hostAddr_mapped hm.block ha hx ?_⟩
    rw [Nat.add_mul] at hnext
    omega

theorem covered_fill {i n p : Nat} (hcov : ∀ x, i ≤ x → x < i + n → Covered s.mem x)
    (hold : ∀ x, s.memState[x]? = some true → Covered s.mem x) (x : Nat)
    (hx : (fill s.memState i n plug)[x]? = some true) :
    Covered (s.setPlugged p (fill s.memState i n plug)).mem x := by
  by_cases hin : i ≤ x ∧ x < i + n
  · exact (hcov x hin.1 hin.2).setPlugged
  · rw [getElem?_fill_outside (by omega)] at hx
    exact (hold x hx).setPlugged

theorem setPlugged_sound {p : Nat} (hs : s.Sound)
    (h : stateChangeRequest checks host s.mem s.memState req.addr (s.size req) req.nbBlocks.toNat plug =
      .ok (.ack, memState')) (hp : p = s.mem.config.blockSize * memState'.count true) :
    (s.setPlugged p memState').Sound := by
  obtain ⟨i, rfl, hall, hlen, hcov⟩ := stateChange_done hs.mem hs.length h
  refine ⟨⟨hs.mem.block, hs.mem.region, hs.mem.usable⟩, ?_, hp, ?_⟩
  · exact length_fill.trans hs.length
  · exact covered_fill hcov hs.covered

variable {i n : Nat}

theorem Sound.plugged_add (hs : s.Sound) (hall : All s.memState i n false) :
    s.mem.config.pluggedSize + n * s.mem.config.blockSize =
      s.mem.config.blockSize * (fill s.memState i n true).count true := by
  rw [count_fill_new Bool.false_ne_true hall, hs.plugged, Nat.mul_add, Nat.mul_comm n]

theorem Sound.plugged_sub (hs : s.Sound) (hall : All s.memState i n true) :
    s.mem.config.pluggedSize =
      s.mem.config.blockSize * (fill s.memState i n false).count true + n * s.mem.config.blockSize := by
  rw [hs.plugged, ← count_fill_old Bool.false_ne_true hall, Nat.mul_add, Nat.mul_comm n]

/-- A request that is refused leaves the state as it is. -/
def Refused (s : Active) (resp : Resp) (s' : Active) : Prop := resp ≠ .ack ∧ s' = s

theorem settle_other {p : Except Panic Nat} {resp1 : Resp} (hresp : resp1 ≠ .ack)
    (h : s.settle p (resp1, memState) = .ok (resp, s')) : resp ≠ .ack ∧ s' = { s with memState := memState } := by
  cases resp1 with
  | ack => exact absurd rfl hresp
  | nack | error =>
    cases h
    exact ⟨hresp, rfl⟩

/-- A plug or unplug request, if the new plugged size is that of the new bitmap. -/
theorem settle_outcome {p : Except Panic Nat} {resp1 : Resp} (hs : s.Sound)
    (hchange : stateChangeRequest checks host s.mem s.memState req.addr (s.size req) req.nbBlocks.toNat plug =
      .ok (resp1, memState')) (hsize : ∀ i q, memState' = fill s.memState i req.nbBlocks.toNat plug →
      All s.memState i req.nbBlocks.toNat (!plug) → p = .ok q → q = s.mem.config.blockSize * memState'.count true)
    (h : s.settle p (resp1, memState') = .ok (resp, s')) : Refused s resp s' ∨ (resp = .ack ∧ s'.Sound) := by
  rcases stateChangeRequest_cases hchange with ⟨hresp, rfl⟩ | ⟨rfl, _⟩
  · exact .inl (settle_other hresp h)
  · right
    obtain ⟨q, hq, hret⟩ := bind_eq_ok.mp h
    cases hret
    obtain ⟨i, hfill, hall, _, _⟩ := stateChange_done hs.mem hs.length hchange
    exact ⟨rfl, setPlugged_sound hs hchange (hsize i q hfill hall hq)⟩

theorem Sound.plugged_le (hs : s.Sound) {b : Bool} :
    s.mem.config.blockSize * (fill s.memState i n b).count true ≤ U64.max := by
  have hcount : (fill s.memState i n b).count true ≤ s.mem.config.regionSize / s.mem.config.blockSize := by
    rw [← hs.length, ← length_fill]
    exact List.count_le_length
  calc s.mem.config.blockSize * (fill s.memState i n b).count true
      ≤ s.mem.config.blockSize * (s.mem.config.regionSize / s.mem.config.blockSize) := Nat.mul_le_mul_left _ hcount
    _ ≤ s.mem.config.regionSize := Nat.mul_div_le _ _
    _ ≤ U64.max := hs.mem.region

theorem plug_outcome (hs : s.Sound) (h : s.plug checks host req = .ok (resp, s')) :
    Refused s resp s' ∨ (resp = .ack ∧ s'.Sound) := by
  obtain ⟨⟨resp1, memState1⟩, hchange, hrest⟩ := bind_eq_ok.mp h
  refine settle_outcome hs hchange ?_ hrest
  rintro i q rfl hall hq
  have hsum := hs.plugged_add hall
  have hle : s.mem.config.pluggedSize + req.nbBlocks.toNat * s.mem.config.blockSize ≤ U64.max := by
    rw [hsum]
    exact hs.plugged_le
  rw [add, size, U64.add_of_le hle] at hq
  cases hq
  exact hsum

theorem unplug_outcome (hs : s.Sound) (h : s.unplug checks host req = .ok (resp, s')) :
    Refused s resp s' ∨ (resp = .ack ∧ s'.Sound) := by
  obtain ⟨⟨resp1, memState1⟩, hchange, hrest⟩ := bind_eq_ok.mp h
  refine settle_outcome hs hchange ?_ hrest
  rintro i q rfl hall hq
  have hsum := hs.plugged_sub hall
  rw [sub, size, U64.sub_of_le (by omega)] at hq
  cases hq
  omega

/-- The system calls succeed for every plugged block, or they fail for the first one. -/
def FirstDecides (checks : Bool) (host : Host) (s : Active) : Prop :=
  ∀ x, s.memState[x]? = some true → (∀ w < x, s.memState[w]? ≠ some true) → Frees checks host s.mem x →
    ∀ y, s.memState[y]? = some true → Frees checks host s.mem y

theorem FirstDecides.none_before (hfirst : FirstDecides checks host s) {y : Nat} (hy : s.memState[y]? = some true)
    (hkept : ¬ (Reachable s.mem ∧ Frees checks host s.mem y))
    (hfreed : ∀ k < y, s.memState[k]? = some true → Reachable s.mem ∧ Frees checks host s.mem k) :
    ∀ k < y, s.memState[k]? ≠ some true := by
  -- the first plugged block is below `y` if any is, so it is freed and then `y` is
  intro k
  induction k using Nat.strongRecOn with
  | ind k ih =>
    intro hk hplugged
    obtain ⟨hreach, hfree⟩ := hfreed k hk hplugged
    refine hkept ⟨hreach, hfirst k hplugged ?_ hfree y hy⟩
    intro w hw
    exact ih w hw (by omega)

theorem count_fill_all {xs : List Bool} : (fill xs 0 xs.length false).count true = 0 := by
  refine List.count_eq_zero.mpr ?_
  intro hmem
  obtain ⟨k, hk, hval⟩ := List.getElem_of_mem hmem
  have hlt : k < xs.length := by rwa [length_fill] at hk
  have hfalse : (fill xs 0 xs.length false)[k]? = some false := getElem?_fill_inside (Nat.zero_le _) (by omega) hlt
  rw [List.getElem?_eq_getElem hk, hval] at hfalse
  cases hfalse

theorem unplugAll_outcome (hs : s.Sound) (hfirst : FirstDecides checks host s)
    (h : s.unplugAll checks host = .ok (resp, s')) : Refused s resp s' ∨ (resp = .ack ∧ s'.Sound) := by
  obtain ⟨⟨resp1, memState1⟩, hloop, hrest⟩ := bind_eq_ok.mp h
  cases unplugLoop_unplugged hs.mem.block hs.usable_le hs.covered hloop with
  | all hresp hout hfreed =>
    right
    subst hresp
    cases hrest
    rw [← hs.length] at hout
    have hnone : memState1.count true = 0 := by rw [hout, count_fill_all]
    refine ⟨rfl, ⟨hs.mem.block, hs.mem.region, hs.mem.usable⟩, ?_, ?_, ?_⟩
    · rw [show (s.setPlugged 0 memState1).memState = memState1 from rfl, hout, length_fill]
      exact hs.length
    · exact (congrArg (s.mem.config.blockSize * ·) hnone).symm
    · intro x hx
      exact absurd (List.mem_of_getElem? hx) (List.count_eq_zero.mp hnone)
  | stopped y hxy hresp hout hplugged hkept hfreed =>
    have hnone := hfirst.none_before hplugged hkept (fun k hk => hfreed k (Nat.zero_le _) hk)
    have hsame : memState1 = s.memState := by
      rw [hout]
      refine fill_eq_self ?_
      intro k _ hlt hlen
      have hne := hnone k (by omega)
      rw [List.getElem?_eq_getElem hlen] at hne ⊢
      rw [ne_eq, Option.some_inj, Bool.not_eq_true] at hne
      rw [hne]
    subst hsame
    exact .inl (settle_other hresp hrest)

/-- Where no request is refused for its address, the condition is exact. -/
theorem unplugAll_accounted_iff (hs : s.Sound) (hreach : Reachable s.mem)
    (h : s.unplugAll checks host = .ok (resp, s')) : Accounted s' ↔ FirstDecides checks host s := by
  constructor
  · intro hacc x hx hfirst hfree y hy
    obtain ⟨⟨resp1, memState1⟩, hloop, hrest⟩ := bind_eq_ok.mp h
    cases unplugLoop_unplugged hs.mem.block hs.usable_le hs.covered hloop with
    | all hresp hout hfreed =>
      have hlt : y < s.memState.length := (List.getElem?_eq_some_iff.mp hy).1
      rw [hs.length] at hlt
      exact (hfreed y (Nat.zero_le _) (by omega) hy).2
    | stopped z hz hresp hout hplugged hkept hfreed =>
      -- the first block is freed, so the loop has stopped behind it
      have hxz : x < z := by
        by_contra hle
        by_cases heq : z = x
        · subst heq
          exact hkept ⟨hreach, hfree⟩
        · exact hfirst z (by omega) hplugged
      have hfewer : memState1.count true < s.memState.count true := by
        rw [hout]
        exact count_fill_lt Bool.false_ne_true (Nat.zero_le x) (by omega) hx
      obtain ⟨_, hs'⟩ := settle_other hresp hrest
      have hplug := hacc.plugged
      rw [hs'] at hplug
      have hcount := Nat.mul_left_cancel hs.pos (hs.plugged.symm.trans hplug)
      simp only at hcount
      omega
  · intro hfirst
    rcases unplugAll_outcome hs hfirst h with ⟨_, rfl⟩ | ⟨_, hsound⟩
    · exact hs.accounted
    · exact hsound.accounted

end Active

/-! ## Calls of the host -/

namespace Mem

variable {factory : Factory} {mem' : Mem}

/-- Nothing that a plugged block needs is lost. -/
structure Grows (mem mem' : Mem) : Prop where
  block : mem'.config.blockSize = mem.config.blockSize
  addr : mem'.config.addr = mem.config.addr
  region : mem'.config.regionSize = mem.config.regionSize
  plugged : mem'.config.pluggedSize = mem.config.pluggedSize
  multi : mem'.multiRegion = mem.multiRegion
  usable : mem.config.usableRegionSize ≤ mem'.config.usableRegionSize
  bounded : mem.config.usableRegionSize ≤ mem.config.regionSize →
    mem'.config.usableRegionSize ≤ mem.config.regionSize
  mapped : ∀ index p, mappedAt mem.mapRegions index = some (some p) →
    ∃ p', mappedAt mem'.mapRegions index = some (some p')

theorem mapFrom_mapped {regions regions' : List MapRegion} {index hostAddr guestAddr n : Nat}
    (h : mapFrom checks regions index hostAddr guestAddr n = .ok regions') :
    ∀ k p, mappedAt regions k = some (some p) → ∃ p', mappedAt regions' k = some (some p') := by
  induction n generalizing regions index hostAddr guestAddr with
  | zero =>
    cases h
    intro k p hp
    exact ⟨p, hp⟩
  | succ n ih =>
    unfold mapFrom at h
    split at h
    · cases h
    · rename_i region hregion
      obtain ⟨hostAddr', _, hrest⟩ := bind_eq_ok.mp h
      obtain ⟨guestAddr', _, hrest'⟩ := bind_eq_ok.mp hrest
      intro k p hp
      by_cases hk : index = k
      · subst hk
        refine ih hrest' index (hostAddr, guestAddr) ?_
        rw [mappedAt, List.getElem?_set_self (List.getElem?_eq_some_iff.mp hregion).1]
        rfl
      · refine ih hrest' k p ?_
        rw [mappedAt, List.getElem?_set_ne hk]
        exact hp

variable {regions' : List MapRegion}

theorem mapNew_mapped {newsize : Nat} (h : mem.mapNew checks factory newsize = .ok (some regions')) :
    ∀ k p, mappedAt mem.mapRegions k = some (some p) → ∃ p', mappedAt regions' k = some (some p') := by
  unfold mapNew at h
  obtain ⟨first, _, h1⟩ := bind_eq_ok.mp h
  obtain ⟨last, _, h2⟩ := bind_eq_ok.mp h1
  obtain ⟨stop, _, h3⟩ := bind_eq_ok.mp h2
  split at h3
  · cases h3
    intro k p hp
    exact ⟨p, hp⟩
  · obtain ⟨guestAddr, _, h4⟩ := bind_eq_ok.mp h3
    obtain ⟨len, _, h5⟩ := bind_eq_ok.mp h4
    obtain ⟨regionLen, _, h6⟩ := bind_eq_ok.mp h5
    split at h6
    · cases h6
    · obtain ⟨regions, hmap, h7⟩ := bind_eq_ok.mp h6
      cases h7
      exact mapFrom_mapped hmap

theorem newsize_le {config : VirtioMemConfig} {alignment n : Nat} (h : newsize checks config alignment = .ok n) :
    n ≤ config.regionSize := by
  unfold newsize at h
  obtain ⟨extent, _, hrest⟩ := bind_eq_ok.mp h
  split at hrest
  · cases hrest
    exact Nat.zero_le _
  · cases hrest
    exact Nat.le_trans Nat.and_le_left (Nat.min_le_left _ _)

theorem growRegions_mapped {newsize : Nat} (h : mem.growRegions checks factory newsize = .ok (some regions')) :
    ∀ k p, mappedAt mem.mapRegions k = some (some p) → ∃ p', mappedAt regions' k = some (some p') := by
  unfold growRegions at h
  split at h
  · exact mapNew_mapped h
  · cases h
    intro k p hp
    exact ⟨p, hp⟩

theorem Grows.refl (mem : Mem) : Grows mem mem :=
  ⟨rfl, rfl, rfl, rfl, rfl, Nat.le_refl _, id, fun _ p hp => ⟨p, hp⟩⟩

theorem resizeUsableRegion_grows {res : Except Error Unit}
    (h : mem.resizeUsableRegion checks factory false = .ok (res, mem')) : Grows mem mem' := by
  unfold resizeUsableRegion at h
  obtain ⟨n, hn, h1⟩ := bind_eq_ok.mp h
  obtain ⟨grown, hgrown, h2⟩ := bind_eq_ok.mp h1
  cases grown with
  | none =>
    cases h2
    exact .refl mem
  | some regions' =>
    have hmapped := growRegions_mapped hgrown
    simp only at h2
    split at h2
    · cases h2
      exact ⟨rfl, rfl, rfl, rfl, rfl, Nat.le_refl _, id, hmapped⟩
    · rename_i hle
      cases h2
      have hge : mem.config.usableRegionSize ≤ n := by
        by_contra hlt
        exact hle ⟨by omega, rfl⟩
      exact ⟨rfl, rfl, rfl, rfl, rfl, hge, fun _ => newsize_le hn, hmapped⟩

/-- The call is refused, or it is a resize with the new requested size. -/
theorem setRequestedSize_cases {requestedSizeMb : Nat} {notified : Bool} {res : Except Error Unit}
    (h : mem.setRequestedSize checks factory requestedSizeMb notified = .ok (res, mem')) :
    mem' = mem ∨ ∃ requestedSize res1, resizeUsableRegion checks factory
      { mem with config := { mem.config with requestedSize := requestedSize } } false = .ok (res1, mem') := by
  obtain ⟨kb, _, h1⟩ := bind_eq_ok.mp h
  obtain ⟨requestedSize, _, h2⟩ := bind_eq_ok.mp h1
  split at h2
  · cases h2
    exact .inl rfl
  · obtain ⟨⟨res1, mem1⟩, hresize, h3⟩ := bind_eq_ok.mp h2
    refine .inr ⟨requestedSize, res1, hresize.trans ?_⟩
    cases res1 with
    | error e | ok u =>
      cases h3
      rfl

theorem setRequestedSize_grows {requestedSizeMb : Nat} {notified : Bool} {res : Except Error Unit}
    (h : mem.setRequestedSize checks factory requestedSizeMb notified = .ok (res, mem')) : Grows mem mem' := by
  rcases setRequestedSize_cases h with rfl | ⟨_, _, hresize⟩
  · exact .refl _
  · have hgrows := resizeUsableRegion_grows hresize
    exact ⟨hgrows.block, hgrows.addr, hgrows.region, hgrows.plugged, hgrows.multi, hgrows.usable, hgrows.bounded,
      hgrows.mapped⟩

theorem Grows.sound (h : Grows mem mem') (hs : mem.Sound) : mem'.Sound := by
  refine ⟨h.block.trans hs.block, ?_, ?_⟩
  · rw [h.region]
    exact hs.region
  · rw [h.region]
    exact h.bounded hs.usable

theorem Grows.covered (h : Grows mem mem') {x : Nat} (hx : Covered mem x) : Covered mem' x := by
  obtain ⟨husable, hfits, p, hp⟩ := hx
  refine ⟨?_, ?_, ?_⟩
  · rw [h.block]
    exact Nat.le_trans husable h.usable
  · rw [h.block, h.addr]
    exact hfits
  · unfold Mapped regionOf
    rw [h.multi, h.block]
    exact h.mapped _ p hp

end Mem

theorem Active.Sound.grows {s : Active} {mem' : Mem} (hs : s.Sound) (h : Mem.Grows s.mem mem') :
    Active.Sound { s with mem := mem' } := by
  refine ⟨h.sound hs.mem, ?_, ?_, ?_⟩
  · rw [h.region, h.block]
    exact hs.length
  · rw [h.plugged, h.block]
    exact hs.plugged
  · intro x hx
    exact h.covered (hs.covered x hx)

/-! ## Devices -/

/-- A device before it is activated: created, and then called by the host in any order. -/
inductive Mem.Built (checks : Bool) : Mem → Prop where
  | new {capacity requestedSizeMib bootMemByte : Nat} {multiRegion : Bool} {mem : Mem}
      (h : Mem.new checks capacity requestedSizeMib multiRegion bootMemByte = .ok (.ok mem)) : Built checks mem
  | setResource {mem mem' : Mem} {factory : Factory} {memRes : List (Nat × Nat)} {slotRes : List UInt32}
      {res : Except Error Unit} (hb : Built checks mem)
      (h : mem.setResource checks factory memRes slotRes = .ok (res, mem')) : Built checks mem'
  | setRequestedSize {mem mem' : Mem} {factory : Factory} {requestedSizeMb : Nat} {notified : Bool}
      {res : Except Error Unit} (hb : Built checks mem)
      (h : mem.setRequestedSize checks factory requestedSizeMb notified = .ok (res, mem')) : Built checks mem'

namespace Mem

theorem new_spec {capacity requestedSizeMib bootMemByte : Nat} {multiRegion : Bool}
    (h : Mem.new checks capacity requestedSizeMib multiRegion bootMemByte = .ok (.ok mem)) :
    (mem.Sound ∧ mem.config.pluggedSize = 0) ∧ mem.mapRegions = [] ∧ mem.config.usableRegionSize = 0 := by
  unfold new at h
  obtain ⟨kb, _, h1⟩ := bind_eq_ok.mp h
  obtain ⟨bytes, _, h2⟩ := bind_eq_ok.mp h1
  obtain ⟨sum, hsum, h3⟩ := bind_eq_ok.mp h2
  obtain ⟨last, hlast, h4⟩ := bind_eq_ok.mp h3
  obtain ⟨kb', _, h5⟩ := bind_eq_ok.mp h4
  obtain ⟨requestedSize, _, h6⟩ := bind_eq_ok.mp h5
  split at h6
  · cases h6
  · cases h6
    have hmax := U64.sub_le_max (U64.add_le_max hsum) hlast
    exact ⟨⟨⟨rfl, Nat.le_trans Nat.and_le_left hmax, Nat.zero_le _⟩, rfl⟩, rfl, rfl⟩

theorem setResource_sound {factory : Factory} {memRes : List (Nat × Nat)} {slotRes : List UInt32}
    {res : Except Error Unit} {mem' : Mem} (hs : mem.Sound) (h0 : mem.config.pluggedSize = 0)
    (h : mem.setResource checks factory memRes slotRes = .ok (res, mem')) :
    mem'.Sound ∧ mem'.config.pluggedSize = 0 := by
  unfold setResource at h
  split at h
  · split at h
    · cases h
      exact ⟨hs, h0⟩
    · simp only at h
      split at h
      · cases h
        exact ⟨⟨hs.block, hs.region, hs.usable⟩, h0⟩
      · have hgrows := resizeUsableRegion_grows h
        exact ⟨hgrows.sound ⟨hs.block, hs.region, hs.usable⟩, hgrows.plugged.trans h0⟩
  · cases h
    exact ⟨hs, h0⟩

theorem Built.sound (h : Built checks mem) : mem.Sound ∧ mem.config.pluggedSize = 0 := by
  induction h with
  | new h => exact (new_spec h).1
  | setResource hb h ih => exact setResource_sound ih.1 ih.2 h
  | setRequestedSize hb h ih =>
    have hgrows := setRequestedSize_grows h
    exact ⟨hgrows.sound ih.1, hgrows.plugged.trans ih.2⟩

theorem activate_sound {s : Active} (hb : Built checks mem) (h : mem.activate = some s) : s.Sound := by
  obtain ⟨hs, h0⟩ := hb.sound
  unfold activate at h
  split at h
  · cases h
  · cases h
    refine ⟨hs, List.length_replicate, ?_, ?_⟩
    · rw [h0, List.count_replicate]
      rfl
    · intro x hx
      cases List.eq_of_mem_replicate (List.mem_of_getElem? hx)

end Mem

/-! ## Runs -/

inductive Op where
  | request (req : VirtioMemReq) (host : Host)
  | setRequestedSize (requestedSizeMb : Nat) (factory : Factory) (notified : Bool)

namespace Active

/-- One request or call, with the response if there is one. -/
def apply (checks : Bool) (s : Active) : Op → Except Panic (Option VirtioMemResp × Active)
  | .request req host => s.processRequest checks host req
  | .setRequestedSize requestedSizeMb factory notified => do
    let (_, mem) ← s.mem.setRequestedSize checks factory requestedSizeMb notified
    return (none, { s with mem := mem })

/-- A request to unplug all does not stop halfway. -/
def Careful (checks : Bool) (s : Active) : Op → Prop
  | .request req host => req.reqType = 2 → FirstDecides checks host s
  | .setRequestedSize _ _ _ => True

/-- A step of a run; one that panics is none. -/
def Step (checks : Bool) (s : Active) (op : Op) (s' : Active) : Prop :=
  Careful checks s op ∧ ∃ resp, s.apply checks op = .ok (resp, s')

variable {s s' : Active} {op : Op}

variable {answer : Option VirtioMemResp}

/-- A request that is refused, or carried out, and then answered. -/
theorem answered_outcome {call : Except Panic (Resp × Active)}
    (hcall : ∀ resp s1, call = .ok (resp, s1) → Refused s resp s1 ∨ (resp = .ack ∧ s1.Sound)) (h : (do
      let (resp, s) ← call
      return (some ⟨resp, .plugged⟩, s)) = Except.ok (answer, s')) :
    s' = s ∨ (s'.Sound ∧ ∃ state, answer = some ⟨.ack, state⟩) := by
  obtain ⟨⟨resp, s1⟩, hok, hret⟩ := bind_eq_ok.mp h
  cases hret
  rcases hcall resp s' hok with hrefused | ⟨rfl, hsound⟩
  · exact .inl hrefused.2
  · exact .inr ⟨hsound, _, rfl⟩

/-- What a request can do: nothing, or it is carried out and the accounting is as before. -/
theorem processRequest_outcome {req : VirtioMemReq} (hs : s.Sound) (hc : req.reqType = 2 → FirstDecides checks host s)
    (h : s.processRequest checks host req = .ok (answer, s')) :
    s' = s ∨ (s'.Sound ∧ ∃ state, answer = some ⟨.ack, state⟩) := by
  unfold processRequest at h
  split at h
  · exact answered_outcome (fun _ _ => plug_outcome hs) h
  split at h
  · exact answered_outcome (fun _ _ => unplug_outcome hs) h
  split at h
  · rename_i htype
    exact answered_outcome (fun _ _ => unplugAll_outcome hs (hc htype)) h
  split at h
  · obtain ⟨⟨resp, state⟩, _, hret⟩ := bind_eq_ok.mp h
    cases hret
    exact .inl rfl
  · cases h
    exact .inl rfl

theorem apply_outcome (hs : s.Sound) (hc : Careful checks s op) (h : s.apply checks op = .ok (answer, s')) :
    s'.Sound ∧ ∀ resp, answer = some resp → resp.respType ≠ .ack → s' = s := by
  cases op with
  | request req host =>
    rcases processRequest_outcome hs hc h with rfl | ⟨hsound, state, rfl⟩
    · exact ⟨hs, fun _ _ _ => rfl⟩
    · refine ⟨hsound, ?_⟩
      intro resp hresp hne
      cases hresp
      exact absurd rfl hne
  | setRequestedSize requestedSizeMb factory notified =>
    obtain ⟨⟨res, mem'⟩, hcall, hret⟩ := bind_eq_ok.mp h
    cases hret
    exact ⟨hs.grows (Mem.setRequestedSize_grows hcall), nofun⟩

theorem sound_run {ops : List Op} (hs : s.Sound) (hrun : Run (Step checks) s ops s') : s'.Sound := by
  refine hrun.invariant (I := Sound) ?_ hs
  rintro s1 op s2 hs1 ⟨hc, answer, happly⟩
  exact (apply_outcome hs1 hc happly).1

/-- A pass over the queue is a sequence of requests. -/
theorem processQueue_run {chains : List Chain} {used : List (UInt16 × Nat)}
    (h : s.processQueue checks chains = .ok (used, s')) :
    ∃ ops, Run (fun s op s' => ∃ answer, s.apply checks op = .ok (answer, s')) s ops s' := by
  induction chains generalizing s used with
  | nil =>
    cases h
    exact ⟨[], .nil⟩
  | cons chain chains ih =>
    obtain ⟨⟨len, s1⟩, hchain, h1⟩ := bind_eq_ok.mp h
    obtain ⟨⟨used', s2⟩, hrest, h2⟩ := bind_eq_ok.mp h1
    cases h2
    obtain ⟨ops, hrun⟩ := ih hrest
    unfold processChain at hchain
    split at hchain
    · cases hchain
      exact ⟨ops, hrun⟩
    · obtain ⟨⟨answer, s3⟩, hreq, hret⟩ := bind_eq_ok.mp hchain
      cases answer with
      | none | some resp =>
        cases hret
        exact ⟨.request _ chain.host :: ops, .cons ⟨_, hreq⟩ hrun⟩

/-! ## A device of 64 blocks -/

def smallMem : Mem where
  config := ⟨4194304, 4294967296, 268435456, 268435456, 0, 8388608⟩
  capacity := 268435456
  alignment := 134217728
  multiRegion := false
  mapRegions := [⟨1, some (139637976727552, 4294967296)⟩]
  hostFd := none

theorem smallMem_new : Mem.new true 256 8 false 0 =
    .ok (.ok { smallMem with config := ⟨4194304, 0, 268435456, 0, 0, 8388608⟩, mapRegions := [] }) := by
  decide

theorem smallMem_setResource :
    Mem.setResource true (fun _ len _ => if len = 268435456 then some 139637976727552 else none)
    { smallMem with config := ⟨4194304, 0, 268435456, 0, 0, 8388608⟩, mapRegions := [] }
    [(4294967296, 268435456)] [1] = .ok (.ok (), smallMem) := by
  decide

theorem smallMem_built : Mem.Built true smallMem := .setResource (.new smallMem_new) smallMem_setResource

/-- The device, with its first blocks as given and the other ones unplugged. -/
def small (pluggedSize : Nat) (first : List Bool) : Active :=
  setPlugged ⟨smallMem, []⟩ pluggedSize (first ++ List.replicate (64 - first.length) false)

/-- A request for the first two blocks; `freed` says for which offsets the system calls succeed. -/
def twoBlocks (reqType : UInt16) (freed : Nat → Bool) : Op :=
  .request ⟨reqType, 4294967296, 2⟩ ⟨fun offset _ => freed offset, fun offset _ _ => freed offset⟩

theorem small_plugged : Run (Step true) (small 0 []) [twoBlocks 0 fun _ => true] (small 8388608 [true, true]) := by
  have hplug : (small 0 []).apply true (twoBlocks 0 fun _ => true) =
      .ok (some ⟨.ack, .plugged⟩, small 8388608 [true, true]) := by
    decide
  exact .cons ⟨fun htype => absurd htype (by decide), _, hplug⟩ .nil

/-- The system calls succeed for the first of two plugged blocks and fail for the second one. -/
theorem unplugAll_accounted_iff_halfway : Accounted (small 8388608 [false, true]) ↔
    FirstDecides true ⟨fun offset _ => offset == 0, fun offset _ _ => offset == 0⟩ (small 8388608 [true, true]) := by
  have hs := sound_run (Mem.activate_sound smallMem_built (by decide)) small_plugged
  have hstop : (small 8388608 [true, true]).unplugAll true ⟨fun offset _ => offset == 0,
    fun offset _ _ => offset == 0⟩ =
      .ok (.error, small 8388608 [false, true]) := by
    decide +kernel
  exact unplugAll_accounted_iff hs ⟨by decide, by decide⟩ hstop

/-! ## The accounting -/

/-- In every run in which no request to unplug all stops halfway, the accounting holds in every
state, and a request that is not acknowledged changes nothing. -/
theorem accounted_run {mem : Mem} {s0 : Active} {ops : List Op} (hbuilt : Mem.Built checks mem)
    (hactive : mem.activate = some s0) (hrun : Run (Step checks) s0 ops s) :
    Accounted s ∧ ∀ op resp s', Careful checks s op → s.apply checks op = .ok (some resp, s') →
      resp.respType ≠ .ack →
      s'.mem.config.pluggedSize = s.mem.config.pluggedSize ∧ s'.memState = s.memState := by
  have hs := sound_run (Mem.activate_sound hbuilt hactive) hrun
  refine ⟨hs.accounted, ?_⟩
  intro op resp s' hc happly hresp
  have hsame := (apply_outcome hs hc happly).2 resp rfl hresp
  rw [hsame]
  exact ⟨rfl, rfl⟩

theorem accounted_run_plugged : Accounted (small 8388608 [true, true]) :=
  (accounted_run smallMem_built (by decide) small_plugged).1

/-- The system calls succeed for the first block and fail for the second one. -/
theorem unplugAll_stops_halfway :
    smallMem.activate = some (small 0 []) ∧ (small 0 []).apply true (twoBlocks 0 fun _ => true) =
      .ok (some ⟨.ack, .plugged⟩, small 8388608 [true, true]) ∧
    (small 8388608 [true, true]).apply true (twoBlocks 2 fun offset => offset == 0) =
      .ok (some ⟨.error, .plugged⟩, small 8388608 [false, true]) ∧
    ¬ Accounted (small 8388608 [false, true]) := by
  refine ⟨by decide, by decide +kernel, by decide +kernel, ?_⟩
  intro h
  exact absurd h.plugged (by decide)

end Active

end Kata.VirtioMem
