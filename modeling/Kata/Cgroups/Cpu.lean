import Kata.Lib.U64
import Mathlib.Order.Bounds.Basic

/-!
# Kata.Cgroups.Cpu

CPU limits on cgroup v2: the weight that both drivers make of `shares` (`convert_shares_to_v2_value`
in `rustjail/src/cgroups/fs/mod.rs`, `shares_to_weight` in
`rustjail/src/cgroups/systemd/subsystem/cpu.rs`), and the quota per second of the systemd driver
(`resolve_cpuquota`).

`limits_in_range_iff` says for which inputs nothing overflows and the results are in range. One
share is not among them: it is below the two that the formula subtracts.
-/

namespace Kata.Cgroups

open Lib

inductive CpuPanic where
  | overflow
  | divideByZero
deriving DecidableEq

variable (checks : Bool)

/-- The formula that the two drivers share: from [2-262144] to [1-10000]. -/
def weightOf (shares : Nat) : Except CpuPanic Nat := do
  let above ← U64.sub checks .overflow shares 2
  let scaled ← U64.mul checks .overflow above 9999
  U64.add checks .overflow 1 (scaled / 262142)

def convertSharesToV2Value (shares : Nat) : Except CpuPanic Nat :=
  if shares = 0 then .ok 0 else weightOf checks shares

def sharesToWeight (shares : Nat) : Except CpuPanic Nat :=
  if shares = 0 then .ok 100 else weightOf checks shares

def sec2Microsec : Nat := 1000 * 1000

def basicInterval : Nat := 10 * 1000

def roundToInterval (usec : Nat) : Except CpuPanic Nat :=
  if usec % basicInterval ≠ 0 then do
    let intervals ← U64.add checks .overflow (usec / basicInterval) 1
    U64.mul checks .overflow intervals basicInterval
  else .ok usec

def resolveCpuquota (quota : Int64) (period : Nat) : Except CpuPanic Nat :=
  if quota > 0 then do
    let usec ← U64.mul checks .overflow quota.toUInt64.toNat sec2Microsec
    if period = 0 then .error .divideByZero else roundToInterval checks (usec / period)
  else .ok U64.max

/-! ## The weight -/

section Weight

variable {checks : Bool} {s s' : Nat}

/-- The weight without bounds on the numbers. -/
def weight (s : Nat) : Nat := 1 + (s - 2) * 9999 / 262142

theorem weightOf_eq (hs : 2 ≤ s) (hmul : (s - 2) * 9999 ≤ U64.max) : weightOf checks s = .ok (weight s) := by
  have hadd : 1 + (s - 2) * 9999 / 262142 ≤ U64.max := by
    unfold U64.max at *
    omega
  rw [weightOf, U64.sub_of_le hs]
  show (U64.mul checks CpuPanic.overflow (s - 2) 9999 >>= _) = _
  rw [U64.mul_of_le hmul]
  exact U64.add_of_le hadd

theorem weightOf_checked {w : Nat} (h : weightOf true s = .ok w) :
    2 ≤ s ∧ (s - 2) * 9999 ≤ U64.max ∧ w = weight s := by
  unfold weightOf at h
  obtain ⟨above, habove, h⟩ := bind_eq_ok.mp h
  obtain ⟨scaled, hscaled, h⟩ := bind_eq_ok.mp h
  have hs : 2 ≤ s := by
    unfold U64.sub at habove
    split at habove
    · assumption
    · cases habove
  rw [U64.sub_of_le hs] at habove
  cases habove
  obtain ⟨hmul, rfl⟩ := U64.mul_checked_eq_ok.mp hscaled
  exact ⟨hs, hmul, (U64.add_checked_eq_ok.mp h).2⟩

theorem weight_mono (h : s ≤ s') : weight s ≤ weight s' := by
  unfold weight
  omega

/-- Both drivers give the weight `w` in every build; in the one that checks for overflows there is
none. -/
def Converts (s w : Nat) : Prop := ∀ checks, convertSharesToV2Value checks s = .ok w ∧ sharesToWeight checks s = .ok w

theorem converts_iff (hs : 0 < s) {w : Nat} : Converts s w ↔ 2 ≤ s ∧ (s - 2) * 9999 ≤ U64.max ∧ w = weight s := by
  have hne : s ≠ 0 := Nat.pos_iff_ne_zero.mp hs
  constructor
  · intro h
    have htrue := (h true).1
    rw [convertSharesToV2Value, if_neg hne] at htrue
    exact weightOf_checked htrue
  · rintro ⟨hs2, hmul, rfl⟩ checks
    rw [convertSharesToV2Value, sharesToWeight, if_neg hne, if_neg hne]
    exact ⟨weightOf_eq hs2 hmul, weightOf_eq hs2 hmul⟩

theorem weight_le_iff : weight s ≤ 10000 ↔ s ≤ 262170 := by
  unfold weight
  omega

end Weight

/-! ## The quota -/

section Quota

variable {checks : Bool} {usec period : Nat} {quota : Int64}

/-- The next multiple, as the code computes it. -/
def rounded (usec : Nat) : Nat :=
  if usec % basicInterval ≠ 0 then (usec / basicInterval + 1) * basicInterval else usec

theorem rounded_isLeast : IsLeast {m | basicInterval ∣ m ∧ usec ≤ m} (rounded usec) := by
  unfold rounded basicInterval
  split
  · refine ⟨⟨⟨_, Nat.mul_comm _ _⟩, by omega⟩, ?_⟩
    rintro m ⟨⟨c, rfl⟩, hm⟩
    omega
  · refine ⟨⟨by omega, Nat.le_refl _⟩, fun m hm => hm.2⟩

theorem roundToInterval_eq (h : rounded usec ≤ U64.max) : roundToInterval checks usec = .ok (rounded usec) := by
  unfold rounded at *
  rw [roundToInterval]
  by_cases hmod : usec % basicInterval ≠ 0
  · rw [if_pos hmod] at h
    rw [if_pos hmod, if_pos hmod]
    have hadd : usec / basicInterval + 1 ≤ U64.max := Nat.le_trans (Nat.le_mul_of_pos_right _ (by decide)) h
    rw [U64.add_of_le hadd]
    exact U64.mul_of_le h
  · rw [if_neg hmod, if_neg hmod]

/-- Whole seconds are whole intervals, so that a quota is rounded only where the period halves it at
least. -/
theorem rounded_le_max {q : Nat} (hperiod : 0 < period) (h : q * sec2Microsec ≤ U64.max) :
    rounded (q * sec2Microsec / period) ≤ U64.max := by
  rcases Nat.lt_or_ge 1 period with hp | hp
  · have hhalf : q * sec2Microsec / period ≤ q * sec2Microsec / 2 := Nat.div_le_div_left hp (by decide)
    unfold rounded basicInterval
    split
    · unfold U64.max at *
      omega
    · omega
  · have hone : period = 1 := by omega
    have hmod : ¬ q * sec2Microsec % basicInterval ≠ 0 := by
      unfold sec2Microsec basicInterval
      omega
    rw [hone, Nat.div_one, rounded, if_neg hmod]
    exact h

theorem resolveCpuquota_eq (hquota : 0 < quota) (hperiod : 0 < period)
    (h : quota.toInt.toNat * sec2Microsec ≤ U64.max) :
    resolveCpuquota checks quota period = .ok (rounded (quota.toInt.toNat * sec2Microsec / period)) := by
  rw [resolveCpuquota, if_pos hquota, U64.toNat_toUInt64 hquota, U64.mul_of_le h]
  show (if period = 0 then _ else _) = _
  rw [if_neg (Nat.pos_iff_ne_zero.mp hperiod)]
  exact roundToInterval_eq (rounded_le_max hperiod h)

theorem resolveCpuquota_checked {q : Nat} (hquota : 0 < quota) (h : resolveCpuquota true quota period = .ok q) :
    quota.toInt.toNat * sec2Microsec ≤ U64.max := by
  rw [resolveCpuquota, if_pos hquota, U64.toNat_toUInt64 hquota] at h
  obtain ⟨usec, husec, -⟩ := bind_eq_ok.mp h
  exact (U64.mul_checked_eq_ok.mp husec).1

end Quota

/-! ## The limits -/

/-- The weights of `s` and `s'` are in range and in order, and the quota is rounded up to an
interval. -/
structure InRange (s s' : Nat) (quota : Int64) (period : Nat) : Prop where
  weights : ∃ w w', Converts s w ∧ Converts s' w' ∧ 1 ≤ w ∧ w' ≤ 10000 ∧ w ≤ w'
  quota : ∃ q, (∀ checks, resolveCpuquota checks quota period = .ok q) ∧
    IsLeast {m | basicInterval ∣ m ∧ quota.toInt.toNat * 10 ^ 6 / period ≤ m} q

theorem limits_in_range_iff (s s' : Nat) (quota : Int64) (period : Nat) (hs : 0 < s) (hss : s ≤ s')
    (hquota : 0 < quota) (hperiod : 0 < period) :
    InRange s s' quota period ↔ 2 ≤ s ∧ s' ≤ 262170 ∧ quota.toInt.toNat * 10 ^ 6 < 2 ^ 64 := by
  constructor
  · rintro ⟨⟨w, w', hw, hw', -, hle, -⟩, q, hq, -⟩
    obtain ⟨hs2, -, rfl⟩ := (converts_iff hs).mp hw
    obtain ⟨-, -, rfl⟩ := (converts_iff (Nat.lt_of_lt_of_le hs hss)).mp hw'
    exact ⟨hs2, weight_le_iff.mp hle, Nat.lt_succ_of_le (resolveCpuquota_checked hquota (hq true))⟩
  · rintro ⟨hs2, hs', hmul⟩
    have hmax : ∀ n ≤ s', (n - 2) * 9999 ≤ U64.max := by
      intro n hn
      unfold U64.max
      omega
    refine ⟨⟨weight s, weight s', (converts_iff hs).mpr ⟨hs2, hmax s hss, rfl⟩,
      (converts_iff (Nat.lt_of_lt_of_le hs hss)).mpr ⟨Nat.le_trans hs2 hss, hmax s' (Nat.le_refl _), rfl⟩,
      Nat.le_add_right 1 _, weight_le_iff.mpr hs', weight_mono hss⟩, ?_⟩
    exact ⟨_, fun checks => resolveCpuquota_eq hquota hperiod (Nat.le_of_lt_succ hmul), rounded_isLeast⟩

/-- The default of 1024 shares beside the largest value of the kernel, and the quota of the source's
own test. -/
theorem limits_in_range_default : InRange 1024 262144 1000000 500000 :=
  (limits_in_range_iff 1024 262144 1000000 500000 (by decide) (by decide) (by decide) (by decide)).mpr (by decide)

/-- One share: the subtraction underflows. Without checks the weight is far above 10000. -/
theorem one_share_underflows :
    ¬ InRange 1 1 1000000 500000 ∧ convertSharesToV2Value true 1 = .error .overflow ∧
      sharesToWeight false 1 = .ok 70369281052672 := by
  refine ⟨?_, by decide, by decide⟩
  rintro ⟨⟨w, -, hw, -⟩, -⟩
  have h := (hw true).1
  rw [show convertSharesToV2Value true 1 = .error .overflow by decide] at h
  cases h

end Kata.Cgroups
