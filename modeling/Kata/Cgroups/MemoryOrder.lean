import Kata.Cgroups.Memory
import Kata.Lib.U64

/-!
# Kata.Cgroups.MemoryOrder

The two memory limits of cgroup v1, and the order in which `set_memory_resources` writes them.

The kernel keeps the limit on memory at or below the limit on memory and swap, and refuses a write
that would break this (`Kernel`). `memory_writes_accepted` says that the driver never makes such a
write: it compares the new limit on memory and swap with the current limit on memory, and writes
first the one that has to make room for the other.
-/

namespace Kata.Cgroups

open Lib Oci

/-! ## The kernel -/

/-- The limits, in pages. -/
structure Limits where
  limit : Nat
  memsw : Nat
deriving DecidableEq

/-- The kernel counts in pages. `max` of them stand for "unlimited", and a larger limit is cut down
to it. What the controller answers to the other calls is `other`. -/
structure Kernel where
  page : Nat
  page_pos : 0 < page
  max : Nat
  fits : max * page < 2 ^ 64
  limits : Limits
  ordered : limits.limit ≤ limits.memsw
  bounded : limits.memsw ≤ max
  other : List MemCall → MemCall → Except String Unit

/-- A write of one of the two limits. -/
def MemCall.IsWrite : MemCall → Prop
  | .setLimit _ | .setMemswapLimit _ => True
  | _ => False

instance : DecidablePred MemCall.IsWrite
  | .setLimit _ | .setMemswapLimit _ => isTrue trivial
  | .setKmemLimit _ | .setSoftLimit _ | .setTcpLimit _ | .setSwappiness _ | .disableOomKiller => isFalse id

namespace Kernel

variable (k : Kernel)

/-- The limit that is kept for a number of bytes. -/
def value (v : Int64) : Nat := if v = -1 then k.max else min (v.toInt.toNat / k.page) k.max

/-- The limits after a write; there are none if it is refused. -/
def write (st : Limits) : MemCall → Option Limits
  | .setLimit v => if k.value v ≤ st.memsw then some { st with limit := k.value v } else none
  | .setMemswapLimit v => if st.limit ≤ k.value v then some { st with memsw := k.value v } else none
  | _ => some st

def after (calls : List MemCall) : Limits := calls.foldl (fun st c => (k.write st c).getD st) k.limits

def cgroup : Cgroup where
  v2 := false
  answer calls c :=
    match c with
    | .setLimit v => if (k.write (k.after calls) (.setLimit v)).isSome then .ok () else .error "EINVAL"
    | .setMemswapLimit v => if (k.write (k.after calls) (.setMemswapLimit v)).isSome then .ok () else .error "EINVAL"
    | c => k.other calls c
  memoryStats calls := some (UInt64.ofNat ((k.after calls).limit * k.page))

/-- The writes of limits among the calls `cs`, made after the calls `before`, are all accepted. -/
def Accepts : List MemCall → List MemCall → Prop
  | _, [] => True
  | before, c :: cs => (c.IsWrite → k.cgroup.answer before c = .ok ()) ∧ Accepts (before ++ [c]) cs

variable {k} {calls cs : List MemCall} {st : Limits} {c : MemCall} {l s : Int64}

theorem after_snoc (h : k.write (k.after calls) c = some st) : k.after (calls ++ [c]) = st := by
  refine List.foldl_append.trans ?_
  rw [List.foldl_cons, List.foldl_nil, ← after, h, Option.getD_some]

theorem write_other (h : ¬ c.IsWrite) : k.write st c = some st := by
  cases c with
  | setLimit v | setMemswapLimit v => exact absurd trivial h
  | _ => rfl

/-- The other calls leave the limits. -/
theorem after_others (h : ∀ c ∈ cs, ¬ c.IsWrite) : k.after (calls ++ cs) = k.after calls := by
  induction cs generalizing calls with
  | nil => rw [List.append_nil]
  | cons c cs ih =>
    have hc : k.after (calls ++ [c]) = k.after calls := after_snoc (write_other (h c (.head _)))
    have hcs := @ih (calls ++ [c]) fun d hd => h d (.tail _ hd)
    rw [List.append_assoc, List.singleton_append] at hcs
    rw [hcs, hc]

theorem answer_limit (h : k.value l ≤ (k.after calls).memsw) : k.cgroup.answer calls (.setLimit l) = .ok () := by
  show (if (k.write (k.after calls) (.setLimit l)).isSome then _ else _) = _
  rw [write, if_pos h]
  rfl

theorem answer_memsw (h : (k.after calls).limit ≤ k.value s) :
    k.cgroup.answer calls (.setMemswapLimit s) = .ok () := by
  show (if (k.write (k.after calls) (.setMemswapLimit s)).isSome then _ else _) = _
  rw [write, if_pos h]
  rfl

theorem after_limit (h : k.value l ≤ (k.after calls).memsw) :
    k.after (calls ++ [.setLimit l]) = { k.after calls with limit := k.value l } :=
  after_snoc (if_pos h)

theorem after_memsw (h : (k.after calls).limit ≤ k.value s) :
    k.after (calls ++ [.setMemswapLimit s]) = { k.after calls with memsw := k.value s } :=
  after_snoc (if_pos h)

theorem accepts_append {before : List MemCall} (ds : List MemCall) :
    k.Accepts before (cs ++ ds) ↔ k.Accepts before cs ∧ k.Accepts (before ++ cs) ds := by
  induction cs generalizing before with
  | nil => rw [List.nil_append, List.append_nil, Accepts, true_and]
  | cons c cs ih => rw [List.cons_append, Accepts, Accepts, ih, and_assoc, List.append_assoc, List.singleton_append]

theorem accepts_others {before : List MemCall} (h : ∀ c ∈ cs, ¬ c.IsWrite) : k.Accepts before cs := by
  induction cs generalizing before with
  | nil => trivial
  | cons c cs ih => exact ⟨fun hc => absurd hc (h c (.head _)), ih fun d hd => h d (.tail _ hd)⟩

/-! ## The limits stay in order -/

structure Ordered (k : Kernel) (st : Limits) : Prop where
  ordered : st.limit ≤ st.memsw
  bounded : st.memsw ≤ k.max

theorem value_le_max (v : Int64) : k.value v ≤ k.max := by
  unfold value
  split
  · exact Nat.le_refl _
  · exact Nat.min_le_right _ _

theorem ordered_write (h : k.Ordered st) (c : MemCall) : k.Ordered ((k.write st c).getD st) := by
  cases c with
  | setLimit v =>
    by_cases hv : k.value v ≤ st.memsw
    · rw [write, if_pos hv]
      exact ⟨hv, h.bounded⟩
    · rw [write, if_neg hv]
      exact h
  | setMemswapLimit v =>
    by_cases hv : st.limit ≤ k.value v
    · rw [write, if_pos hv]
      exact ⟨hv, value_le_max v⟩
    · rw [write, if_neg hv]
      exact h
  | _ => exact h

theorem ordered_foldl (cs : List MemCall) (h : k.Ordered st) :
    k.Ordered (cs.foldl (fun st c => (k.write st c).getD st) st) := by
  induction cs generalizing st with
  | nil => exact h
  | cons c cs ih => exact ih (ordered_write h c)

theorem ordered_after (calls : List MemCall) : k.Ordered (k.after calls) :=
  ordered_foldl calls ⟨k.ordered, k.bounded⟩

/-! ## Limits as numbers of bytes -/

theorem value_pos (h : 0 < l) : k.value l = min (l.toInt.toNat / k.page) k.max := by
  have hne : l ≠ -1 := by
    intro heq
    rw [heq] at h
    exact absurd h (by decide)
  rw [value, if_neg hne]

theorem value_mono (hl : 0 < l) (hls : s = -1 ∨ l ≤ s) : k.value l ≤ k.value s := by
  rcases hls with rfl | hls
  · exact value_le_max l
  · have hs : 0 < s := Int64.lt_of_lt_of_le hl hls
    have hle : l.toInt.toNat ≤ s.toInt.toNat := Int.toNat_le_toNat (Int64.le_iff_toInt_le.mp hls)
    have hdiv : l.toInt.toNat / k.page ≤ s.toInt.toNat / k.page := Nat.div_le_div_right hle
    rw [value_pos hl, value_pos hs]
    omega

theorem reported_lt_iff (hs : 0 < s) :
    UInt64.ofNat ((k.after calls).limit * k.page) < s.toUInt64 ↔ (k.after calls).limit * k.page < s.toInt.toNat := by
  have hst := ordered_after (k := k) calls
  have hmax : (k.after calls).limit * k.page < 2 ^ 64 :=
    Nat.lt_of_le_of_lt (Nat.mul_le_mul_right _ (Nat.le_trans hst.ordered hst.bounded)) k.fits
  rw [UInt64.lt_iff_toNat_lt, UInt64.toNat_ofNat_of_lt' hmax, U64.toNat_toUInt64 hs]

/-- Where the driver writes the swap first, the new one is not below the limit. -/
theorem limit_le_of_reported_lt (hs : 0 < s)
    (h : UInt64.ofNat ((k.after calls).limit * k.page) < s.toUInt64) : (k.after calls).limit ≤ k.value s := by
  have hst := ordered_after (k := k) calls
  have hlt := (reported_lt_iff hs).mp h
  have hdiv : (k.after calls).limit ≤ s.toInt.toNat / k.page :=
    (Nat.le_div_iff_mul_le k.page_pos).mpr (Nat.le_of_lt hlt)
  rw [value_pos hs]
  exact Nat.le_min.mpr ⟨hdiv, Nat.le_trans hst.ordered hst.bounded⟩

/-- Where it writes the limit first, the new swap is at most the limit there was. -/
theorem le_limit_of_not_reported_lt (hs : 0 < s)
    (h : ¬ UInt64.ofNat ((k.after calls).limit * k.page) < s.toUInt64) : k.value s ≤ (k.after calls).limit := by
  have hle : s.toInt.toNat ≤ (k.after calls).limit * k.page := Nat.le_of_not_lt fun hlt =>
    h ((reported_lt_iff hs).mpr hlt)
  have hdiv : s.toInt.toNat / k.page ≤ (k.after calls).limit := Nat.div_le_of_le_mul (Nat.mul_comm _ _ ▸ hle)
  rw [value_pos hs]
  exact Nat.le_trans (Nat.min_le_left _ _) hdiv

end Kernel

/-! ## The driver -/

/-- What is asked for: no limit at all, or a limit with as much or more of memory and swap. -/
inductive Request : Int64 → Int64 → Prop where
  | unlimited : Request (-1) (-1)
  | limited {l s : Int64} (hl : 0 < l) (hls : s = -1 ∨ l ≤ s) : Request l s

section Driver

open Kernel

variable {k : Kernel} {memory : LinuxMemory} {l s : Int64} {calls : List MemCall}

theorem Request.limit_ne_zero (h : Request l s) : l ≠ 0 := by
  cases h with
  | unlimited => decide
  | limited hl _ =>
    rintro rfl
    exact absurd hl (by decide)

theorem Request.swap_cases (h : Request l s) : s = -1 ∨ 0 < s := by
  cases h with
  | unlimited => exact .inl rfl
  | limited hl hls => exact hls.imp_right fun hle => Int64.lt_of_lt_of_le hl hle

theorem Request.swap_ne_zero (h : Request l s) : s ≠ 0 := by
  rintro rfl
  rcases h.swap_cases with hs | hs
  · exact absurd hs (by decide)
  · exact absurd hs (by decide)

theorem Request.value_le (h : Request l s) : k.value l ≤ k.value s := by
  cases h with
  | unlimited => exact Nat.le_refl _
  | limited hl hls => exact value_mono hl hls

theorem setResource_limit (hlimit : memory.limit = some l) (hl : l ≠ 0) :
    setResource k.cgroup .setLimit memory.limit = Traced.call k.cgroup.answer (.setLimit l) := by
  rw [setResource, hlimit]
  exact if_pos hl

/-- Both writes are made, in an order in which the kernel accepts them. -/
theorem setLimitAndSwap_writes (hlimit : memory.limit = some l) (h : Request l s) :
    ∃ cs, setLimitAndSwap k.cgroup memory s (UInt64.ofNat ((k.after calls).limit * k.page)) calls =
        (.ok (), calls ++ cs) ∧
      (cs = [.setMemswapLimit s, .setLimit l] ∨ cs = [.setLimit l, .setMemswapLimit s]) ∧
      k.Accepts calls cs ∧ k.after (calls ++ cs) = ⟨k.value l, k.value s⟩ := by
  have hst := ordered_after (k := k) calls
  rw [setLimitAndSwap, setResource_limit hlimit h.limit_ne_zero]
  split
  case isTrue hfirst =>
    have hmemsw : (k.after calls).limit ≤ k.value s := by
      rcases h.swap_cases with rfl | hs
      · exact Nat.le_trans hst.ordered hst.bounded
      · rcases hfirst with rfl | hlt
        · exact absurd hs (by decide)
        · exact limit_le_of_reported_lt hs hlt
    have hst1 := after_memsw hmemsw
    have hlim : k.value l ≤ (k.after (calls ++ [.setMemswapLimit s])).memsw := by
      rw [hst1]
      exact h.value_le
    refine ⟨[.setMemswapLimit s, .setLimit l], ?_, .inl rfl, ⟨fun _ => answer_memsw hmemsw, fun _ =>
      answer_limit hlim,
      trivial⟩, ?_⟩
    · exact Traced.call_bind_call (answer_memsw hmemsw) (answer_limit hlim)
    · have hst2 := after_limit hlim
      rw [List.append_assoc, hst1] at hst2
      exact hst2
  case isFalse hfirst =>
    obtain ⟨hs1, hlt⟩ := not_or.mp hfirst
    have hs := h.swap_cases.resolve_left hs1
    have hswap := le_limit_of_not_reported_lt hs hlt
    have hlim : k.value l ≤ (k.after calls).memsw := Nat.le_trans h.value_le (Nat.le_trans hswap hst.ordered)
    have hst1 := after_limit hlim
    have hmemsw : (k.after (calls ++ [.setLimit l])).limit ≤ k.value s := by
      rw [hst1]
      exact h.value_le
    refine ⟨[.setLimit l, .setMemswapLimit s], ?_, .inr rfl, ⟨fun _ => answer_limit hlim, fun _ =>
      answer_memsw hmemsw,
      trivial⟩, ?_⟩
    · exact Traced.call_bind_call (answer_limit hlim) (answer_memsw hmemsw)
    · have hst2 := after_memsw hmemsw
      rw [List.append_assoc, hst1] at hst2
      exact hst2

theorem setMemory_writes (calls : List MemCall) (hlimit : memory.limit = some l) (h : Request l s) :
    ∃ cs, setMemory k.cgroup memory s calls = (.ok (), calls ++ cs) ∧
      (cs = [.setMemswapLimit s, .setLimit l] ∨ cs = [.setLimit l, .setMemswapLimit s]) ∧
      k.Accepts calls cs ∧ k.after (calls ++ cs) = ⟨k.value l, k.value s⟩ := by
  have hboth : memory.limit.isSome ∧ s ≠ 0 := ⟨by rw [hlimit]; rfl, h.swap_ne_zero⟩
  rw [setMemory, if_pos hboth]
  exact setLimitAndSwap_writes hlimit h

theorem requestedSwap_of_request (hlimit : memory.limit = some l)
    (h : l = -1 ∧ s = -1 ∨ memory.swap = some s ∧ 0 < l) : requestedSwap memory = s := by
  rcases h with ⟨rfl, rfl⟩ | ⟨hswap, hl⟩
  · exact if_pos hlimit
  · exact requestedSwap_eq hlimit hswap hl

theorem initKmemLimits_calls {update : Bool}
    (hkmem : update = false → ∀ calls v, k.other calls (.setKmemLimit v) = .ok ()) :
    ∃ cs, (∀ c ∈ cs, ¬ c.IsWrite) ∧ (initKmemLimits k.cgroup update).Yields () cs := by
  cases update with
  | true => exact ⟨[], nofun, .pure ()⟩
  | false =>
    refine ⟨[.setKmemLimit 1] ++ [.setKmemLimit (-1)], ?_, ?_⟩
    · intro c hc
      rcases List.mem_cons.mp hc with rfl | hc
      · exact id
      · cases List.mem_singleton.mp hc
        exact id
    · exact .bind (.call fun calls => hkmem rfl calls _) (.call fun calls => hkmem rfl calls _)

theorem setResource_adds {cg : Cgroup} {func : Int64 → MemCall} (hfunc : ∀ v, ¬ (func v).IsWrite)
    (field : Option Int64) : (setResource cg func field).Adds (¬ MemCall.IsWrite ·) :=
  .ite (fun _ => .call (hfunc _)) fun _ => .pure ()

theorem setSwappiness_adds {cg : Cgroup} (swappiness : Option UInt64) :
    (setSwappiness cg swappiness).Adds (¬ MemCall.IsWrite ·) := by
  cases swappiness with
  | none => exact .pure ()
  | some _ => exact .ite (fun _ => .call id) fun _ => .throw _

theorem setMemoryResources_calls {update : Bool} (hlimit : memory.limit = some l) (hswap : requestedSwap memory = s)
    (h : Request l s) (hkmem : update = false → ∀ calls v, k.other calls (.setKmemLimit v) = .ok ()) :
    ∃ pre cs post, (setMemoryResources k.cgroup memory update []).2 = pre ++ cs ++ post ∧
      (∀ c ∈ pre, ¬ c.IsWrite) ∧ (∀ c ∈ post, ¬ c.IsWrite) ∧
      (cs = [.setMemswapLimit s, .setLimit l] ∨ cs = [.setLimit l, .setMemswapLimit s]) ∧
      k.Accepts pre cs ∧ k.after (pre ++ cs) = ⟨k.value l, k.value s⟩ := by
  obtain ⟨pre, hpre, hinit⟩ := initKmemLimits_calls hkmem
  obtain ⟨cs, hrun, horder, haccepts, hafter⟩ := setMemory_writes pre hlimit h
  have hrest : Traced.Adds (¬ MemCall.IsWrite ·) (do
      setResource k.cgroup .setSoftLimit memory.reservation
      setResource k.cgroup .setKmemLimit memory.kernel
      setResource k.cgroup .setTcpLimit memory.kernelTcp
      setSwappiness k.cgroup memory.swappiness
      disableOomKiller k.cgroup (memory.disableOomKiller.getD false)) := by
    refine .bind (setResource_adds (fun _ => id) _) fun _ => ?_
    refine .bind (setResource_adds (fun _ => id) _) fun _ => ?_
    refine .bind (setResource_adds (fun _ => id) _) fun _ => ?_
    exact .bind (setSwappiness_adds _) fun _ => .ite (fun _ => .call id) fun _ => .pure ()
  obtain ⟨post, hpost, hothers⟩ := hrest (pre ++ cs)
  refine ⟨pre, cs, post, ?_, hpre, hothers, horder, haccepts, hafter⟩
  rw [setMemoryResources, hswap, hinit.bind_eq, List.nil_append, Traced.bind_ok hrun]
  exact hpost

/-- Only the two limits are written, both writes are accepted, and what was asked for is what the
kernel keeps. Where the limit is -1 both are lifted, whatever the requested swap. -/
theorem memory_writes_accepted (k : Kernel) (memory : LinuxMemory) (update : Bool) (l s : Int64)
    (hlimit : memory.limit = some l) (hrequest : l = -1 ∧ s = -1 ∨ memory.swap = some s ∧ 0 < l ∧ (s = -1 ∨ l ≤ s))
    (hkmem : update = false → ∀ calls v, k.other calls (.setKmemLimit v) = .ok ()) :
    let calls := (setMemoryResources k.cgroup memory update []).2
    (calls.filter (·.IsWrite) = [.setMemswapLimit s, .setLimit l] ∨
        calls.filter (·.IsWrite) = [.setLimit l, .setMemswapLimit s]) ∧
      k.Accepts [] calls ∧ k.after calls = ⟨k.value l, k.value s⟩ := by
  have hswap : requestedSwap memory = s :=
    requestedSwap_of_request hlimit (hrequest.imp_right fun h => ⟨h.1, h.2.1⟩)
  have h : Request l s := by
    rcases hrequest with ⟨rfl, rfl⟩ | ⟨-, hl, hls⟩
    · exact .unlimited
    · exact .limited hl hls
  obtain ⟨pre, cs, post, hcalls, hpre, hpost, horder, haccepts, hafter⟩ :=
    setMemoryResources_calls hlimit hswap h hkmem
  have hothers : ∀ ds : List MemCall, (∀ c ∈ ds, ¬ c.IsWrite) → ds.filter (·.IsWrite) = [] := fun ds hds =>
    List.filter_eq_nil_iff.mpr fun c hc => by simpa using hds c hc
  refine ⟨?_, ?_, ?_⟩
  · rw [hcalls, List.filter_append, List.filter_append, hothers pre hpre, hothers post hpost, List.append_nil,
      List.nil_append]
    rcases horder with rfl | rfl
    · exact .inl rfl
    · exact .inr rfl
  · rw [hcalls, accepts_append, accepts_append]
    exact ⟨⟨accepts_others hpre, haccepts⟩, accepts_others hpost⟩
  · rw [hcalls, after_others hpost, hafter]

/-- Pages of 4 KiB, and 1 GiB for each of the two limits. -/
def oneGib : Kernel where
  page := 4096
  page_pos := by decide
  max := 0x7FFFFFFFFFFFF
  fits := by decide
  limits := ⟨0x40000, 0x40000⟩
  ordered := Nat.le_refl _
  bounded := by decide
  other _ _ := .ok ()

theorem memory_writes_two_gib : let memory : LinuxMemory := { limit := some 0x80000000, swap := some 0xC0000000 }
    oneGib.after (setMemoryResources oneGib.cgroup memory false []).2 =
      ⟨oneGib.value 0x80000000, oneGib.value 0xC0000000⟩ :=
  (memory_writes_accepted oneGib { limit := some 0x80000000, swap := some 0xC0000000 } false 0x80000000 0xC0000000 rfl
    (.inr ⟨rfl, by decide, .inr (by decide)⟩) fun _ _ _ => rfl).2.2

end Driver
end Kata.Cgroups
