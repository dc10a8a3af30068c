import Mathlib.Order.Bounds.Basic
import Mathlib.Algebra.Order.Ring.Nat
import Kata.Lib.Outcome
import Kata.Lib.U64

/-!
# Kata.Allocator.Range

Closed ranges of resource ids, allocation constraints, and the panics of the allocator
(`dbs_allocator/src/lib.rs`, `dbs_allocator/src/interval_tree.rs`).

Ids are `u64`. A range keeps its two ends as naturals and `Range.Wf` says that they are the ends of
a closed `u64` range; the fields are public in the source and `free` assigns them directly, so a
range is not always built by `Range.new`. Sums and differences of ids go through `addU64` and
`subU64`, which either panic or wrap on overflow, as the build setting `overflow-checks` says.

`alignTo_spec` is the one fact about the bit arithmetic of `align_to`: it finds the least aligned
start in the range, or there is none.
-/

namespace Kata.Allocator

open Lib

abbrev U64 := Fin (2 ^ 64)

instance u64_neZero : NeZero (2 ^ 64) := ⟨by decide⟩

def u64Max : Nat := 2 ^ 64 - 1

structure Range where
  min : Nat
  max : Nat
deriving DecidableEq, Repr

inductive Panic where
  | invalidRange (min max : Nat)  -- "interval_tree: Range({}, {}) is invalid"
  | keyExists (key : Range)  -- "interval_tree: key {:?} exists"
  | keyIntersects (key existing : Range)  -- "interval_tree: key {:?} intersects with existing {:?}"
  | updateUnallocated  -- "try to update unallocated interval tree node"
  | unreachable  -- the last arm of `rotate`
  | nodeBroken  -- `expect("Node is broken")`
  | unwrapNone
  | overflow
deriving DecidableEq, Repr

/-- The panics of id arithmetic: an overflow, or a range that `Range.new` refuses. -/
def Panic.IsArith : Panic → Prop
  | .overflow => True
  | .invalidRange _ _ => True
  | _ => False

/-- `a + b` in `u64`; `checks` is the build setting `overflow-checks`. -/
def addU64 (checks : Bool) (a b : Nat) : Except Panic Nat :=
  if a + b ≤ u64Max then .ok (a + b)
  else if checks then .error .overflow
  else .ok ((a + b) % 2 ^ 64)

def subU64 (checks : Bool) (a b : Nat) : Except Panic Nat :=
  if b ≤ a then .ok (a - b)
  else if checks then .error .overflow
  else .ok (2 ^ 64 + a - b)

def checkedAdd (a b : Nat) : Option Nat :=
  if a + b ≤ u64Max then some (a + b) else none

theorem addU64_eq (checks : Bool) (a b : Nat) : addU64 checks a b = U64.add checks .overflow a b := rfl

variable {checks : Bool} {a b : Nat}

theorem addU64_of_le (h : a + b ≤ u64Max) : addU64 checks a b = .ok (a + b) := by
  rw [addU64_eq]
  exact U64.add_of_le h

theorem subU64_of_le (h : b ≤ a) : subU64 checks a b = .ok (a - b) :=
  U64.sub_of_le h

namespace Range

def new (umin umax : Nat) : Except Panic Range :=
  if umin > umax ∨ (umin = 0 ∧ umax = u64Max) then .error (.invalidRange umin umax)
  else .ok ⟨umin, umax⟩

def newPoint (value : Nat) : Range := ⟨value, value⟩

def len (checks : Bool) (r : Range) : Except Panic Nat := do
  addU64 checks (← subU64 checks r.max r.min) 1

def intersect (r other : Range) : Bool :=
  decide (Max.max r.min other.min ≤ Min.min r.max other.max)

def contain (r other : Range) : Bool :=
  decide (r.min ≤ other.min ∧ r.max ≥ other.max)

/-- `Range::align_to`. The complement `!(align - 1)` of a `u64` is its exclusive or with `u64::MAX`. -/
def alignTo (r : Range) (align : Nat) : Except Panic (Option Range) :=
  if align = 0 ∨ align = 1 then .ok (some r)
  else if align &&& (align - 1) ≠ 0 then .ok none
  else
    match checkedAdd r.min (align - 1) with
    | none => .ok none
    | some v =>
      let min := v &&& (u64Max ^^^ (align - 1))
      if min ≤ r.max then do return some (← Range.new min r.max)
      else .ok none

def cmp (r other : Range) : Ordering :=
  match compare r.min other.min with
  | .eq => compare r.max other.max
  | res => res

structure Wf (r : Range) : Prop where
  min_le_max : r.min ≤ r.max
  max_le : r.max ≤ u64Max

/-- The range of all ids, which `Range.new` refuses: its length does not fit in `u64`. -/
def full : Range := ⟨0, u64Max⟩

def Before (r other : Range) : Prop := r.max < other.min

def Has (r : Range) (id : Nat) : Prop := r.min ≤ id ∧ id ≤ r.max

instance (r : Range) (id : Nat) : Decidable (r.Has id) := inferInstanceAs (Decidable (_ ∧ _))

theorem new_eq_ok {a b : Nat} (hle : a ≤ b) (hfull : ¬ (a = 0 ∧ b = u64Max)) : Range.new a b = .ok ⟨a, b⟩ := by
  have h : ¬ (a > b ∨ (a = 0 ∧ b = u64Max)) := by
    rintro (h | h)
    · omega
    · exact hfull h
  simp only [new, if_neg h]

variable {r : Range}

theorem of_new {a b : Nat} (h : Range.new a b = .ok r) : r = ⟨a, b⟩ ∧ a ≤ b ∧ r ≠ full := by
  unfold new at h
  split at h
  · cases h
  · rename_i hc
    cases h
    refine ⟨rfl, by omega, ?_⟩
    intro hf
    cases hf
    exact hc (.inr ⟨rfl, rfl⟩)

theorem ne_full_iff : r ≠ full ↔ ¬ (r.min = 0 ∧ r.max = u64Max) := by
  cases r; simp [full]

theorem len_eq_ok {checks : Bool} (hw : r.Wf) (hf : r ≠ full) : r.len checks = .ok (r.max - r.min + 1) := by
  have hle := hw.min_le_max
  have hmax := hw.max_le
  rw [ne_full_iff] at hf
  rw [len, subU64_of_le hle, ok_bind, addU64_of_le (by omega)]

variable {other : Range}

theorem intersect_iff (hr : r.Wf) (ho : other.Wf) :
    r.intersect other = true ↔ ¬ r.Before other ∧ ¬ other.Before r := by
  have := hr.min_le_max; have := ho.min_le_max
  simp only [intersect, Before, decide_eq_true_eq]
  omega

theorem contain_iff : r.contain other = true ↔ r.min ≤ other.min ∧ other.max ≤ r.max := by
  simp [contain]

-- not by `Iff.rfl`: as a definitional unfolding it would leave the condition of an `if` behind
theorem has_iff {id : Nat} : r.Has id ↔ r.min ≤ id ∧ id ≤ r.max := by
  constructor
  · exact fun h => h
  · exact fun h => h

/-! ## The order of ranges -/

theorem cmp_eq_iff : r.cmp other = .eq ↔ r = other := by
  obtain ⟨a, b⟩ := r
  obtain ⟨c, d⟩ := other
  simp only [cmp]
  split
  · rename_i h
    simp only [Nat.compare_eq_eq] at h
    simp [h]
  · rename_i h
    have hne : a ≠ c := fun e => h (by simp [e])
    simp [hne]

theorem cmp_of_before (hr : r.Wf) (h : r.Before other) : r.cmp other = .lt := by
  have hlt : r.min < other.min := Nat.lt_of_le_of_lt hr.min_le_max h
  simp [cmp, Nat.compare_eq_lt.mpr hlt]

theorem cmp_of_after (ho : other.Wf) (h : other.Before r) : r.cmp other = .gt := by
  have hlt : other.min < r.min := Nat.lt_of_le_of_lt ho.min_le_max h
  simp [cmp, Nat.compare_eq_gt.mpr hlt]

end Range

/-! ## Alignment -/

/-- `s` is an admissible start for the alignment `align`: 0 asks for nothing, and an alignment that
is not a power of two admits no start. -/
def Aligned (align s : Nat) : Prop := align = 0 ∨ (align.isPowerOfTwo ∧ align ∣ s)

instance (align s : Nat) : Decidable (Aligned align s) := inferInstanceAs (Decidable (_ ∨ _))

theorem aligned_one (s : Nat) : Aligned 1 s := .inr ⟨⟨0, rfl⟩, Nat.one_dvd s⟩

/-- Clearing the low `k` bits of a `u64` rounds it down to a multiple of `2 ^ k`. -/
theorem and_compl_eq {v k : Nat} (hv : v ≤ u64Max) (hk : k < 64) :
    v &&& (u64Max ^^^ (2 ^ k - 1)) = v / 2 ^ k * 2 ^ k := by
  have hlt : v < 2 ^ 64 := by simp only [u64Max] at hv; omega
  apply Nat.eq_of_testBit_eq
  intro i
  rw [← Nat.shiftRight_eq_div_pow, ← Nat.shiftLeft_eq]
  simp only [u64Max, Nat.testBit_and, Nat.testBit_xor, Nat.testBit_two_pow_sub_one,
    Nat.testBit_shiftLeft, Nat.testBit_shiftRight]
  by_cases hi : k ≤ i
  · rw [show k + (i - k) = i by omega]
    by_cases h64 : i < 64
    · simp [hi, h64, show ¬ i < k by omega]
    · have : v.testBit i = false :=
        Nat.testBit_lt_two_pow (Nat.lt_of_lt_of_le hlt (Nat.pow_le_pow_right (by omega) (by omega)))
      simp [this]
  · simp [hi, show i < k by omega, show i < 64 by omega]

theorem isLeast_roundUp {a m : Nat} (hm : 0 < m) : IsLeast {s | a ≤ s ∧ m ∣ s} ((a + (m - 1)) / m * m) := by
  refine ⟨⟨?_, Nat.dvd_mul_left m _⟩, ?_⟩
  · have := Nat.div_add_mod (a + (m - 1)) m
    have := Nat.mod_lt (a + (m - 1)) hm
    rw [Nat.mul_comm]; omega
  · rintro s ⟨has, q, rfl⟩
    have hlt : (a + (m - 1)) / m < q + 1 := by
      rw [Nat.div_lt_iff_lt_mul hm, Nat.add_mul, Nat.mul_comm q m]; omega
    rw [Nat.mul_comm m q]
    exact Nat.mul_le_mul_right m (by omega)

namespace Range

theorem alignTo_two_pow {r : Range} {k : Nat} (h01 : ¬ (2 ^ k = 0 ∨ 2 ^ k = 1)) (hk : k < 64)
    (hov : r.min + (2 ^ k - 1) ≤ u64Max) :
    r.alignTo (2 ^ k) =
      if (r.min + (2 ^ k - 1)) / 2 ^ k * 2 ^ k ≤ r.max then do
        return some (← Range.new ((r.min + (2 ^ k - 1)) / 2 ^ k * 2 ^ k) r.max)
      else .ok none := by
  have hp : 2 ^ k &&& (2 ^ k - 1) = 0 := by simp
  rw [alignTo, if_neg h01, if_neg (by simp [hp])]
  simp only [checkedAdd, if_pos hov, and_compl_eq hov hk]

/-- `align_to` of a range other than the full one never panics. It gives the range from its least
aligned start on, or nothing when no aligned start lies in the range. -/
theorem alignTo_spec {r : Range} (hw : r.Wf) (hf : r ≠ full) {align : Nat} (ha : align ≤ u64Max) :
    (∃ m, r.alignTo align = .ok (some ⟨m, r.max⟩) ∧ IsLeast {s | r.Has s ∧ Aligned align s} m) ∨
    (r.alignTo align = .ok none ∧ ∀ s, r.Has s → ¬ Aligned align s) := by
  have hle := hw.min_le_max
  have hmax := hw.max_le
  by_cases h01 : align = 0 ∨ align = 1
  · refine .inl ⟨r.min, by simp [alignTo, h01], ⟨⟨by omega, hle⟩, ?_⟩, fun s hs => hs.1.1⟩
    rcases h01 with rfl | rfl
    · exact .inl rfl
    · exact aligned_one _
  by_cases hp : align &&& (align - 1) = 0
  · obtain ⟨k, rfl⟩ := (Nat.and_sub_one_eq_zero_iff_isPowerOfTwo (by omega)).mp hp
    have hk : k < 64 := by
      by_contra hk
      have := Nat.pow_le_pow_right (n := 2) (by omega) (show 64 ≤ k by omega)
      simp only [u64Max] at ha; omega
    have hpos : 0 < 2 ^ k := Nat.two_pow_pos k
    obtain ⟨⟨hge, hdvd⟩, hleast⟩ := isLeast_roundUp (a := r.min) hpos
    have hal : ∀ s, Aligned (2 ^ k) s ↔ 2 ^ k ∣ s := fun s =>
      ⟨fun h => h.elim (fun h0 => absurd h0 (by omega)) And.right, fun h => .inr ⟨⟨k, rfl⟩, h⟩⟩
    by_cases hov : r.min + (2 ^ k - 1) ≤ u64Max
    · -- no overflow in `checked_add`: the mask rounds down
      rw [alignTo_two_pow h01 hk hov]
      by_cases hin : (r.min + (2 ^ k - 1)) / 2 ^ k * 2 ^ k ≤ r.max
      · rw [if_pos hin, new_eq_ok hin (by rintro ⟨h0, hm⟩; exact ne_full_iff.mp hf ⟨by omega, hm⟩)]
        refine .inl ⟨_, rfl, ⟨⟨hge, hin⟩, (hal _).mpr hdvd⟩, ?_⟩
        rintro s ⟨hs, hsal⟩
        exact hleast ⟨hs.1, (hal s).mp hsal⟩
      · rw [if_neg hin]
        refine .inr ⟨rfl, fun s hs hsal => ?_⟩
        have := hleast ⟨hs.1, (hal s).mp hsal⟩
        have := hs.2; omega
    · -- `checked_add` overflows: the next multiple is past the last id
      refine .inr ⟨by rw [alignTo, if_neg h01]; simp [hp, checkedAdd, hov], fun s hs hsal => ?_⟩
      have hs64 : s < 2 ^ 64 := by have := hs.2; simp only [u64Max] at hmax; omega
      obtain ⟨q, rfl⟩ := (hal s).mp hsal
      have hq : q < 2 ^ (64 - k) := by
        rw [show (2 : Nat) ^ 64 = 2 ^ k * 2 ^ (64 - k) by rw [← Nat.pow_add]; congr 1; omega] at hs64
        exact Nat.lt_of_mul_lt_mul_left hs64
      have hle64 : 2 ^ k * (q + 1) ≤ 2 ^ 64 := by
        calc 2 ^ k * (q + 1) ≤ 2 ^ k * 2 ^ (64 - k) := Nat.mul_le_mul_left _ hq
          _ = 2 ^ 64 := by rw [← Nat.pow_add]; congr 1; omega
      have := hs.1
      rw [Nat.mul_add] at hle64
      simp only [u64Max] at hov; omega
  · refine .inr ⟨by simp [alignTo, h01, hp], ?_⟩
    rintro s _ (h0 | ⟨hpow, _⟩)
    · exact h01 (.inl h0)
    · exact hp ((Nat.and_sub_one_eq_zero_iff_isPowerOfTwo (by omega)).mpr hpow)

end Range
end Kata.Allocator
