import Kata.Limiter.Bandwidth

/-!
# Kata.Limiter.Replenish

What one call does to a bucket, in plain arithmetic, and when the limiter is blocked with a timer
that runs.

The refill of a bucket is exact as long as its products and sums fit in a `u64`
(`replenish_exact_iff`). A request is only refused when the burst has been used up, and costs
nothing unless the refill wraps around (`refusal_free_iff`). A request that is granted beyond the
size by less than one millisecond's worth of tokens blocks the limiter with a timer that is not
armed (`timer_runs_iff`).
-/

namespace Kata.Limiter

open Lib

namespace TokenBucket

/-! ## The refill -/

/-- The nanoseconds since the last update, as the code sees them. -/
def timeDelta (b : TokenBucket) (now : Nat) : Nat := (now - b.lastUpdate) % 2 ^ 64

/-- The tokens that are added, from a product that may have wrapped around. -/
def refill (b : TokenBucket) (now : Nat) : Nat :=
  b.timeDelta now * b.processedCapacity % 2 ^ 64 / b.processedRefillTime

/-- The budget after a replenish, from a sum that may have wrapped around. -/
def topUp (b : TokenBucket) (now : Nat) : Nat := min ((b.budget + b.refill now) % 2 ^ 64) b.size

/-- A replenish comes to an end: nothing overflows if that is checked. -/
def Replenishes (checks : Bool) (now : Nat) (b : TokenBucket) : Prop :=
  b.processedRefillTime ≠ 0 ∧
    (checks = true → b.timeDelta now * b.processedCapacity ≤ U64.max ∧ b.budget + b.refill now ≤ U64.max)

variable {checks : Bool} {now tokens : Nat} {b b' : TokenBucket}

theorem autoReplenish_ok_iff : b.autoReplenish checks now = .ok b' ↔
    b.Replenishes checks now ∧ b' = { b with budget := b.topUp now, lastUpdate := now } := by
  unfold autoReplenish
  rw [bind_eq_ok]
  constructor
  · rintro ⟨amount, hamount, hrest⟩
    obtain ⟨hmul, rfl⟩ := U64.mul_eq_ok_iff.mp hamount
    split at hrest
    · cases hrest
    · rename_i hne
      obtain ⟨sum, hsum, hret⟩ := bind_eq_ok.mp hrest
      obtain ⟨hadd, rfl⟩ := U64.add_eq_ok_iff.mp hsum
      cases hret
      exact ⟨⟨hne, fun hc => ⟨hmul hc, hadd hc⟩⟩, rfl⟩
  · rintro ⟨⟨hne, hfits⟩, rfl⟩
    refine ⟨_, U64.mul_eq_ok_iff.mpr ⟨fun hc => (hfits hc).1, rfl⟩, ?_⟩
    rw [if_neg hne]
    exact bind_eq_ok.mpr ⟨_, U64.add_eq_ok_iff.mpr ⟨fun hc => (hfits hc).2, rfl⟩, rfl⟩

theorem le_topUp (hsize : b.budget ≤ b.size) (hfits : b.budget + b.refill now ≤ U64.max) :
    b.budget ≤ b.topUp now := by
  rw [topUp, U64.mod_of_le_max hfits]
  exact Nat.le_min.mpr ⟨Nat.le_add_right _ _, hsize⟩

/-- A sum that wraps around is below what was there. -/
theorem topUp_lt (hbudget : b.budget ≤ U64.max) (hover : U64.max < b.budget + b.refill now) :
    b.topUp now < b.budget := by
  refine Nat.lt_of_le_of_lt (Nat.min_le_left _ _) ?_
  have hrefill : b.refill now ≤ U64.max := Nat.le_trans (Nat.div_le_self _ _) (U64.mod_le_max _)
  unfold U64.max at *
  omega

/-! ### Exact replenishment -/

theorem reduced_div (time size : Nat) {ns : Nat} (hns : 0 < ns) :
    time * (size / Nat.gcd size ns) / (ns / Nat.gcd size ns) = time * size / ns := by
  obtain ⟨c, hc⟩ := Nat.gcd_dvd_left size ns
  obtain ⟨d, hd⟩ := Nat.gcd_dvd_right size ns
  have hpos : 0 < Nat.gcd size ns := Nat.gcd_pos_of_pos_right size hns
  generalize Nat.gcd size ns = g at hc hd hpos
  subst hc hd
  rw [Nat.mul_div_cancel_left c hpos, Nat.mul_div_cancel_left d hpos, Nat.mul_left_comm time g c,
    Nat.mul_div_mul_left _ _ hpos]

/-- What `make_bucket` returns when nothing overflows. -/
def made (now size oneTimeBurst refillTime : Nat) : TokenBucket where
  size := size
  initialOneTimeBurst := oneTimeBurst
  refillTime := refillTime
  oneTimeBurst := oneTimeBurst
  budget := size
  lastUpdate := now
  processedCapacity := size / Nat.gcd size (refillTime * nanosecInOneMillisec)
  processedRefillTime := refillTime * nanosecInOneMillisec / Nat.gcd size (refillTime * nanosecInOneMillisec)

theorem new_eq_made {size oneTimeBurst refillTime : Nat} (h : refillTime * nanosecInOneMillisec ≤ U64.max) :
    new checks now size oneTimeBurst refillTime = .ok (made now size oneTimeBurst refillTime) := by
  refine bind_eq_ok.mpr ⟨_, U64.mul_of_le h, ?_⟩
  rw [gcd_eq]
  rfl

theorem makeBucket_checked {size oneTimeBurst refillTime : Nat} (hsize : 0 < size) (hrefill : 0 < refillTime) :
    RateLimiter.makeBucket true now size oneTimeBurst refillTime = .ok (some b) ↔
      refillTime * nanosecInOneMillisec ≤ U64.max ∧ b = made now size oneTimeBurst refillTime := by
  rw [RateLimiter.makeBucket, if_pos ⟨hsize.ne', hrefill.ne'⟩, TokenBucket.new]
  constructor
  · intro h
    obtain ⟨b1, hnew, hret⟩ := bind_eq_ok.mp h
    cases hret
    obtain ⟨ns, hns, hret⟩ := bind_eq_ok.mp hnew
    obtain ⟨hle, rfl⟩ := U64.mul_checked_eq_ok.mp hns
    cases hret
    rw [gcd_eq]
    exact ⟨hle, rfl⟩
  · rintro ⟨hle, rfl⟩
    exact bind_eq_ok.mpr ⟨_, new_eq_made hle, rfl⟩

theorem forceReplenish_checked : (∃ b', b.forceReplenish true tokens = .ok b') ↔
    if 0 < b.oneTimeBurst then b.oneTimeBurst + tokens ≤ U64.max else b.budget + tokens ≤ U64.max := by
  unfold forceReplenish
  split
  all_goals
    constructor
    · rintro ⟨b', h⟩
      obtain ⟨sum, hsum, _⟩ := bind_eq_ok.mp h
      exact (U64.add_checked_eq_ok.mp hsum).1
    · intro hle
      exact ⟨_, bind_eq_ok.mpr ⟨_, U64.add_checked_eq_ok.mpr ⟨hle, rfl⟩, rfl⟩⟩

/-- A bucket, the state that it has got into and what is asked of it. -/
structure Occasion where
  size : Nat
  oneTimeBurst : Nat
  refillTime : Nat
  start : Nat
  budget : Nat
  burstLeft : Nat
  lastUpdate : Nat
  elapsed : Nat  -- since the last update, in nanoseconds
  tokens : Nat  -- to be replenished by force

namespace Occasion

variable (o : Occasion)

def ns : Nat := o.refillTime * nanosecInOneMillisec

def used (b : TokenBucket) : TokenBucket :=
  { b with budget := o.budget, oneTimeBurst := o.burstLeft, lastUpdate := o.lastUpdate }

/-- The bucket is made, the refill is the exact one, and nothing overflows, which would be an error
here. -/
def Exact : Prop :=
  ∃ b, RateLimiter.makeBucket true o.start o.size o.oneTimeBurst o.refillTime = .ok (some b) ∧
    (o.used b).autoReplenish true (o.lastUpdate + o.elapsed) =
      .ok { o.used b with
        budget := min o.size (o.budget + o.elapsed * o.size / o.ns), lastUpdate := o.lastUpdate + o.elapsed } ∧
    ∃ b', (o.used b).forceReplenish true o.tokens = .ok b'

/-- The tokens for the time as it is taken modulo the range of `u64`. -/
def refilled : Nat := o.elapsed % 2 ^ 64 * o.size / o.ns

structure Fits : Prop where
  time : o.ns ≤ U64.max
  product : o.elapsed % 2 ^ 64 * (o.size / Nat.gcd o.size o.ns) ≤ U64.max
  sum : o.budget + o.refilled ≤ U64.max
  elapsed : o.elapsed < 2 ^ 64 ∨ o.size ≤ o.budget + o.refilled
  forced : if 0 < o.burstLeft then o.burstLeft + o.tokens ≤ U64.max else o.budget + o.tokens ≤ U64.max

variable {o}

/-- The bucket that was made, in its state. -/
def bucket (o : Occasion) : TokenBucket := o.used (made o.start o.size o.oneTimeBurst o.refillTime)

theorem timeDelta_bucket : o.bucket.timeDelta (o.lastUpdate + o.elapsed) = o.elapsed % 2 ^ 64 := by
  show (o.lastUpdate + o.elapsed - o.lastUpdate) % 2 ^ 64 = _
  rw [Nat.add_sub_cancel_left]

theorem refill_bucket (hns : 0 < o.ns) (h : o.elapsed % 2 ^ 64 * (o.size / Nat.gcd o.size o.ns) ≤ U64.max) :
    o.bucket.refill (o.lastUpdate + o.elapsed) = o.refilled := by
  rw [TokenBucket.refill, timeDelta_bucket]
  show o.elapsed % 2 ^ 64 * (o.size / Nat.gcd o.size o.ns) % 2 ^ 64 / (o.ns / Nat.gcd o.size o.ns) = _
  rw [U64.mod_of_le_max h, reduced_div _ _ hns, refilled]

/-- After 2^64 nanoseconds any bucket is full. -/
theorem size_le_of_late (hns : 0 < o.ns) (hfits : o.ns ≤ U64.max) (h : 2 ^ 64 ≤ o.elapsed) :
    o.size ≤ o.elapsed * o.size / o.ns := by
  rw [Nat.le_div_iff_mul_le hns, Nat.mul_comm]
  refine Nat.mul_le_mul_right _ (Nat.le_trans hfits ?_)
  exact Nat.le_trans (Nat.sub_le _ _) h

/-- The budgets agree: nothing of the time is lost, or the bucket is full anyway. -/
theorem budget_eq_iff (hns : 0 < o.ns) (hfits : o.ns ≤ U64.max) :
    min (o.budget + o.refilled) o.size = min o.size (o.budget + o.elapsed * o.size / o.ns) ↔
      o.elapsed < 2 ^ 64 ∨ o.size ≤ o.budget + o.refilled := by
  by_cases hlt : o.elapsed < 2 ^ 64
  · rw [refilled, Nat.mod_eq_of_lt hlt, Nat.min_comm]
    exact ⟨fun _ => .inl hlt, fun _ => rfl⟩
  · have hlate := size_le_of_late hns hfits (Nat.le_of_not_lt hlt)
    rw [Nat.min_eq_left (Nat.le_trans hlate (Nat.le_add_left _ o.budget))]
    constructor
    · intro h
      exact .inr (h.symm.le.trans (Nat.min_le_left _ _))
    · rintro (h | h)
      · exact absurd h hlt
      · exact Nat.min_eq_right h

theorem autoReplenish_exact_iff (hns : 0 < o.ns) (hfits : o.ns ≤ U64.max) :
    o.bucket.autoReplenish true (o.lastUpdate + o.elapsed) =
      .ok { o.bucket with
        budget := min o.size (o.budget + o.elapsed * o.size / o.ns), lastUpdate := o.lastUpdate + o.elapsed } ↔
    o.elapsed % 2 ^ 64 * (o.size / Nat.gcd o.size o.ns) ≤ U64.max ∧ o.budget + o.refilled ≤ U64.max ∧
      (o.elapsed < 2 ^ 64 ∨ o.size ≤ o.budget + o.refilled) := by
  have hprocessed : o.ns / Nat.gcd o.size o.ns ≠ 0 :=
    (Nat.div_pos (Nat.gcd_le_right _ hns) (Nat.gcd_pos_of_pos_right _ hns)).ne'
  rw [autoReplenish_ok_iff, Replenishes, timeDelta_bucket, ← budget_eq_iff hns hfits]
  constructor
  · rintro ⟨⟨_, hover⟩, heq⟩
    obtain ⟨hprod, hsum⟩ := hover rfl
    have hbudget := congrArg TokenBucket.budget heq
    rw [refill_bucket hns hprod] at hsum
    simp only [topUp, refill_bucket hns hprod] at hbudget
    rw [U64.mod_of_le_max hsum] at hbudget
    exact ⟨hprod, hsum, hbudget.symm⟩
  · rintro ⟨hprod, hsum, hbudget⟩
    have hsum' : o.bucket.budget + o.bucket.refill (o.lastUpdate + o.elapsed) ≤ U64.max := by
      rw [refill_bucket hns hprod]
      exact hsum
    refine ⟨⟨hprocessed, fun _ => ⟨hprod, hsum'⟩⟩, ?_⟩
    rw [← hbudget, topUp, U64.mod_of_le_max hsum', refill_bucket hns hprod]
    rfl

end Occasion

theorem replenish_exact_iff (o : Occasion) (hsize : 0 < o.size) (hrefill : 0 < o.refillTime) : o.Exact ↔ o.Fits := by
  have hns : 0 < o.ns := Nat.mul_pos hrefill (by decide)
  constructor
  · rintro ⟨b, hmake, hauto, hforce⟩
    obtain ⟨hfits, rfl⟩ := (makeBucket_checked hsize hrefill).mp hmake
    obtain ⟨hprod, hsum, helapsed⟩ := (Occasion.autoReplenish_exact_iff hns hfits).mp hauto
    exact ⟨hfits, hprod, hsum, helapsed, forceReplenish_checked.mp hforce⟩
  · rintro ⟨hfits, hprod, hsum, helapsed, hforced⟩
    refine ⟨_, (makeBucket_checked hsize hrefill).mpr ⟨hfits, rfl⟩, ?_, forceReplenish_checked.mpr hforced⟩
    exact (Occasion.autoReplenish_exact_iff hns hfits).mpr ⟨hprod, hsum, helapsed⟩

/-- One second refills 1000 tokens, of which half are left after half a second. -/
theorem replenish_exact_half_second : (⟨1000, 0, 1000, 0, 0, 0, 0, 500000000, 100⟩ : Occasion).Exact :=
  (replenish_exact_iff ⟨1000, 0, 1000, 0, 0, 0, 0, 500000000, 100⟩ (by decide) (by decide)).mpr
    ⟨by decide, by decide, by decide, by decide, by decide⟩

/-- An empty bucket of 1000000007 tokens for each second has been idle for 19 seconds: it should be
full. -/
def idle : Occasion := ⟨1000000007, 0, 1000, 0, 0, 0, 0, 19000000000, 0⟩

theorem idle_overflows :
    idle.bucket.autoReplenish true 19000000000 = .error .overflow ∧
      (idle.bucket.autoReplenish false 19000000000).map TokenBucket.budget = .ok 553256059 ∧ ¬ idle.Exact := by
  refine ⟨by decide, by decide, ?_⟩
  rintro ⟨b, hmake, hauto, _⟩
  obtain ⟨_, rfl⟩ := (makeBucket_checked (by decide) (by decide)).mp hmake
  cases hauto

/-! ## Requests -/

/-- The part of a request that the burst does not pay is refused. -/
structure Refused (checks : Bool) (now : Nat) (b : TokenBucket) (tokens : Nat) : Prop where
  short : b.budget < tokens - b.oneTimeBurst
  fits : tokens - b.oneTimeBurst ≤ b.size
  replenishes : b.Replenishes checks now
  stillShort : b.topUp now < tokens - b.oneTimeBurst

/-- The part of a request that the burst does not pay is granted beyond the size. -/
structure Overspent (checks : Bool) (now : Nat) (b : TokenBucket) (tokens : Nat) : Prop where
  short : b.budget < tokens - b.oneTimeBurst
  exceeds : b.size < tokens - b.oneTimeBurst
  replenishes : b.Replenishes checks now

theorem spend_failure_iff : b.spend checks now tokens = .ok (.failure, b') ↔
    b.budget < tokens ∧ tokens ≤ b.size ∧ b.Replenishes checks now ∧ b.topUp now < tokens ∧
      b' = { b with budget := b.topUp now, lastUpdate := now } := by
  unfold spend
  by_cases hshort : tokens > b.budget
  · rw [if_pos hshort, bind_eq_ok]
    constructor
    · rintro ⟨b1, hauto, hrest⟩
      obtain ⟨hreplenishes, rfl⟩ := autoReplenish_ok_iff.mp hauto
      split at hrest
      · cases hrest
      · rename_i hsize
        split at hrest
        · rename_i hstill
          cases hrest
          exact ⟨hshort, Nat.le_of_not_lt hsize, hreplenishes, hstill, rfl⟩
        · cases hrest
    · rintro ⟨_, hsize, hreplenishes, hstill, rfl⟩
      refine ⟨_, autoReplenish_ok_iff.mpr ⟨hreplenishes, rfl⟩, ?_⟩
      rw [if_neg (Nat.not_lt.mpr hsize)]
      exact if_pos hstill
  · rw [if_neg hshort]
    exact ⟨nofun, fun h => absurd h.1 hshort⟩

theorem spend_overConsumption_iff {ratio : ℚ} : b.spend checks now tokens = .ok (.overConsumption ratio, b') ↔
    b.budget < tokens ∧ b.size < tokens ∧ b.Replenishes checks now ∧
      ratio = ((tokens - b.topUp now : Nat) : ℚ) / b.size ∧ b' = { b with budget := 0, lastUpdate := now } := by
  unfold spend
  by_cases hshort : tokens > b.budget
  · rw [if_pos hshort, bind_eq_ok]
    constructor
    · rintro ⟨b1, hauto, hrest⟩
      obtain ⟨hreplenishes, rfl⟩ := autoReplenish_ok_iff.mp hauto
      split at hrest
      · rename_i hsize
        cases hrest
        exact ⟨hshort, hsize, hreplenishes, rfl, rfl⟩
      · split at hrest
        · cases hrest
        · cases hrest
    · rintro ⟨_, hsize, hreplenishes, rfl, rfl⟩
      exact ⟨_, autoReplenish_ok_iff.mpr ⟨hreplenishes, rfl⟩, if_pos hsize⟩
  · rw [if_neg hshort]
    exact ⟨nofun, fun h => absurd h.1 hshort⟩

/-- The burst pays for what it can. -/
theorem reduce_eq_spend (h : ¬ (0 < b.oneTimeBurst ∧ tokens ≤ b.oneTimeBurst)) :
    b.reduce checks now tokens = { b with oneTimeBurst := 0 }.spend checks now (tokens - b.oneTimeBurst) := by
  unfold reduce
  by_cases hburst : b.oneTimeBurst > 0
  · rw [if_pos hburst, if_neg fun hle => h ⟨hburst, hle⟩]
  · have hzero : b.oneTimeBurst = 0 := Nat.eq_zero_of_not_pos hburst
    have hsame : { b with oneTimeBurst := 0 } = b := by rw [← hzero]
    rw [if_neg hburst, hsame, hzero, Nat.sub_zero]

theorem reduce_of_burst (h : 0 < b.oneTimeBurst ∧ tokens ≤ b.oneTimeBurst) : b.reduce checks now tokens =
    .ok (.success, { b with oneTimeBurst := b.oneTimeBurst - tokens, lastUpdate := now }) := by
  rw [reduce, if_pos h.1, if_pos h.2]

theorem reduce_failure_iff : b.reduce checks now tokens = .ok (.failure, b') ↔
    b.Refused checks now tokens ∧ b' = { b with oneTimeBurst := 0, budget := b.topUp now, lastUpdate := now } := by
  by_cases h : 0 < b.oneTimeBurst ∧ tokens ≤ b.oneTimeBurst
  · rw [reduce_of_burst h]
    refine ⟨nofun, ?_⟩
    rintro ⟨hrefused, _⟩
    have hshort := hrefused.short
    omega
  · rw [reduce_eq_spend h, spend_failure_iff]
    constructor
    · rintro ⟨hshort, hsize, hreplenishes, hstill, rfl⟩
      exact ⟨⟨hshort, hsize, hreplenishes, hstill⟩, rfl⟩
    · rintro ⟨⟨hshort, hsize, hreplenishes, hstill⟩, rfl⟩
      exact ⟨hshort, hsize, hreplenishes, hstill, rfl⟩

theorem reduce_overConsumption_iff {ratio : ℚ} : b.reduce checks now tokens = .ok (.overConsumption ratio, b') ↔
    b.Overspent checks now tokens ∧ ratio = ((tokens - b.oneTimeBurst - b.topUp now : Nat) : ℚ) / b.size ∧
      b' = { b with oneTimeBurst := 0, budget := 0, lastUpdate := now } := by
  by_cases h : 0 < b.oneTimeBurst ∧ tokens ≤ b.oneTimeBurst
  · rw [reduce_of_burst h]
    refine ⟨nofun, ?_⟩
    rintro ⟨hover, _⟩
    have hshort := hover.short
    omega
  · rw [reduce_eq_spend h, spend_overConsumption_iff]
    constructor
    · rintro ⟨hshort, hsize, hreplenishes, hratio, hb⟩
      exact ⟨⟨hshort, hsize, hreplenishes⟩, hratio, hb⟩
    · rintro ⟨⟨hshort, hsize, hreplenishes⟩, hratio, hb⟩
      exact ⟨hshort, hsize, hreplenishes, hratio, hb⟩

theorem not_overspent {r : Except Panic (BucketReduction × TokenBucket)} (h : b.reduce checks now tokens = r)
    (hne : ∀ ratio b', r ≠ .ok (.overConsumption ratio, b')) : ¬ b.Overspent checks now tokens := by
  intro hover
  exact hne _ _ (h.symm.trans (reduce_overConsumption_iff.mpr ⟨hover, rfl, rfl⟩))

/-- A refused request leaves the burst and at least the budget. -/
def RefusalFree (checks : Bool) (now : Nat) (b : TokenBucket) (tokens : Nat) : Prop :=
  ∀ b', b.reduce checks now tokens = .ok (.failure, b') → b'.oneTimeBurst = b.oneTimeBurst ∧ b.budget ≤ b'.budget

/-! ### The buckets that there can be -/

theorem spend_keeps {red : BucketReduction} (h : b.spend checks now tokens = .ok (red, b')) :
    b'.size = b.size ∧ b'.oneTimeBurst = b.oneTimeBurst ∧ (b.budget ≤ b.size → b'.budget ≤ b.size) := by
  unfold spend at h
  split at h
  · obtain ⟨b1, hauto, hrest⟩ := bind_eq_ok.mp h
    obtain ⟨_, rfl⟩ := autoReplenish_ok_iff.mp hauto
    have htop : b.topUp now ≤ b.size := Nat.min_le_right _ _
    split at hrest
    · cases hrest
      exact ⟨rfl, rfl, fun _ => Nat.zero_le _⟩
    · split at hrest
      · cases hrest
        exact ⟨rfl, rfl, fun _ => htop⟩
      · cases hrest
        exact ⟨rfl, rfl, fun _ => Nat.le_trans (Nat.sub_le _ _) htop⟩
  · cases h
    exact ⟨rfl, rfl, Nat.le_trans (Nat.sub_le _ _)⟩

theorem reduce_size {red : BucketReduction} (h : b.reduce checks now tokens = .ok (red, b')) : b'.size = b.size := by
  by_cases hburst : 0 < b.oneTimeBurst ∧ tokens ≤ b.oneTimeBurst
  · rw [reduce_of_burst hburst] at h
    cases h
    rfl
  · rw [reduce_eq_spend hburst] at h
    exact (spend_keeps h).1

theorem forceReplenish_size (h : b.forceReplenish checks tokens = .ok b') : b'.size = b.size := by
  unfold forceReplenish at h
  split at h
  · obtain ⟨sum, _, hret⟩ := bind_eq_ok.mp h
    cases hret
    rfl
  · obtain ⟨sum, _, hret⟩ := bind_eq_ok.mp h
    cases hret
    rfl

/-- The fields are private, and these calls are all that write them. -/
inductive Reachable (checks : Bool) : TokenBucket → Prop where
  | new {now size oneTimeBurst refillTime : Nat} {b : TokenBucket} (hsize : size ≤ U64.max)
      (h : TokenBucket.new checks now size oneTimeBurst refillTime = .ok b) : Reachable checks b
  | reduce {now tokens : Nat} {red : BucketReduction} {b b' : TokenBucket} (hb : Reachable checks b)
      (h : b.reduce checks now tokens = .ok (red, b')) : Reachable checks b'
  | forceReplenish {tokens : Nat} {b b' : TokenBucket} (hb : Reachable checks b)
      (h : b.forceReplenish checks tokens = .ok b') : Reachable checks b'

/-- The budget is not touched as long as there is a burst. -/
structure Wf (b : TokenBucket) : Prop where
  size_le : b.size ≤ U64.max
  budget_le : b.budget ≤ b.size
  full : 0 < b.oneTimeBurst → b.budget = b.size

theorem Reachable.wf (h : Reachable checks b) : b.Wf := by
  induction h with
  | new hsize h =>
    obtain ⟨ns, _, hret⟩ := bind_eq_ok.mp h
    cases hret
    exact ⟨hsize, Nat.le_refl _, fun _ => rfl⟩
  | @reduce now tokens red b b' _ h ih =>
    by_cases hburst : 0 < b.oneTimeBurst ∧ tokens ≤ b.oneTimeBurst
    · rw [reduce_of_burst hburst] at h
      cases h
      exact ⟨ih.size_le, ih.budget_le, fun _ => ih.full hburst.1⟩
    · rw [reduce_eq_spend hburst] at h
      obtain ⟨hsize, hzero, hle⟩ := spend_keeps h
      exact ⟨hsize ▸ ih.size_le, hsize ▸ hle ih.budget_le, fun hpos => absurd hpos (hzero ▸ Nat.lt_irrefl 0)⟩
  | forceReplenish _ h ih =>
    unfold TokenBucket.forceReplenish at h
    split at h
    · rename_i hpos
      obtain ⟨sum, _, hret⟩ := bind_eq_ok.mp h
      cases hret
      exact ⟨ih.size_le, ih.budget_le, fun _ => ih.full hpos⟩
    · rename_i hzero
      obtain ⟨sum, _, hret⟩ := bind_eq_ok.mp h
      cases hret
      exact ⟨ih.size_le, Nat.min_le_right _ _, fun hpos => absurd hpos hzero⟩

/-- With a burst the bucket is full, so that a request is paid, or it is larger than the bucket. -/
theorem Refused.burst_eq_zero (h : b.Refused checks now tokens) (hb : b.Wf) : b.oneTimeBurst = 0 := by
  by_contra hne
  have hfull := hb.full (Nat.pos_of_ne_zero hne)
  have hshort := h.short
  have hfits := h.fits
  omega

theorem refusal_free_iff (checks : Bool) (now : Nat) (b : TokenBucket) (tokens : Nat) (hb : b.Reachable checks) :
    b.RefusalFree checks now tokens ↔ (b.Refused checks now tokens → b.budget + b.refill now ≤ U64.max) := by
  have hwf := hb.wf
  constructor
  · intro hfree hrefused
    obtain ⟨-, hle⟩ := hfree _ (reduce_failure_iff.mpr ⟨hrefused, rfl⟩)
    refine Nat.le_of_not_lt fun hover => ?_
    exact Nat.not_le.mpr (topUp_lt (Nat.le_trans hwf.budget_le hwf.size_le) hover) hle
  · intro hcond b' hb'
    obtain ⟨hrefused, rfl⟩ := reduce_failure_iff.mp hb'
    exact ⟨(hrefused.burst_eq_zero hwf).symm, le_topUp hwf.budget_le (hcond hrefused)⟩

/-- A bucket of 1000 tokens for each second, of which 900 are taken after the burst of 500. -/
def mostlySpent : TokenBucket := { made 0 1000 500 1000 with oneTimeBurst := 0, budget := 100 }

theorem mostlySpent_reachable : mostlySpent.Reachable true := by
  have hnew : (made 0 1000 500 1000).Reachable true := .new (by decide) (new_eq_made (by decide))
  have hspend : (made 0 1000 500 1000).reduce true 0 1400 = .ok (.success, mostlySpent) := by decide
  exact hnew.reduce hspend

theorem refusal_free_mostlySpent : mostlySpent.reduce true 200000000 800 =
      .ok (.failure, { mostlySpent with budget := 300, lastUpdate := 200000000 }) ∧
    mostlySpent.RefusalFree true 200000000 800 :=
  ⟨by decide, (refusal_free_iff true 200000000 mostlySpent 800 mostlySpent_reachable).mpr fun _ => by decide⟩

/-- Almost all that a `u64` can hold, for each millisecond; emptied at the start and half full
again. -/
def halfFull : TokenBucket :=
  { made 0 18446744073709000000 0 1 with budget := 9223372036854500000, lastUpdate := 500000 }

theorem halfFull_reachable : halfFull.Reachable false := by
  have hnew : (made 0 18446744073709000000 0 1).Reachable false := .new (by decide) (new_eq_made (by decide))
  have hempty : (made 0 18446744073709000000 0 1).reduce false 0 18446744073709000000 =
      .ok (.success, { made 0 18446744073709000000 0 1 with budget := 0 }) := by decide
  have hhalf : { made 0 18446744073709000000 0 1 with budget := 0 }.reduce false 500000 18446744073709000000 =
      .ok (.failure, halfFull) := by decide
  exact (hnew.reduce hempty).reduce hhalf

/-- A millisecond later the sum wraps around. -/
theorem refusal_wraps : halfFull.Reachable false ∧
    halfFull.reduce false 1500000 18446744073709000000 =
      .ok (.failure, { halfFull with budget := 9223372036853948384, lastUpdate := 1500000 }) ∧
    ¬ halfFull.RefusalFree false 1500000 18446744073709000000 := by
  have hfailure : halfFull.reduce false 1500000 18446744073709000000 =
      .ok (.failure, { halfFull with budget := 9223372036853948384, lastUpdate := 1500000 }) := by decide
  refine ⟨halfFull_reachable, hfailure, fun hfree => ?_⟩
  exact absurd (hfree _ hfailure).2 (by decide)

end TokenBucket

/-! ## The timer -/

inductive LimiterCall where
  | consume (now tokens : Nat) (tokenType : TokenType)
  | eventHandler (now : Nat)
  | updateBuckets (bytes ops : BucketUpdate)
  | manualReplenish (tokens : Nat) (tokenType : TokenType)

namespace RateLimiter

/-- After a panic there is no limiter. -/
def step (checks : Bool) : Option RateLimiter → LimiterCall → Option RateLimiter
  | none, _ => none
  | some l, .consume now tokens tokenType => ((l.consume checks now tokens tokenType).map Prod.snd).toOption
  | some l, .eventHandler now => some (l.eventHandler now).2
  | some l, .updateBuckets bytes ops => some (l.updateBuckets bytes ops)
  | some l, .manualReplenish tokens tokenType => (l.manualReplenish checks tokens tokenType).toOption

/-- A limiter that is blocked has a timer, and it is unblocked when the timer has expired. -/
def Unblockable : Option RateLimiter → Prop
  | none => True
  | some l => l.timerActive = true → ∃ expiry, l.timer = some expiry ∧
      ∀ now ≥ expiry, (l.eventHandler now).2.timerActive = false

/-- A request that is granted beyond the size takes a millisecond or more to pay for. -/
def PaysForBlock (checks : Bool) : Option RateLimiter → LimiterCall → Prop
  | some l, .consume now tokens tokenType => ∀ b, l.timerActive = false → l.bucket tokenType = some b →
      b.Overspent checks now tokens → b.size ≤ (tokens - b.oneTimeBurst - b.topUp now) * b.refillTime
  | _, _ => True

/-- The buckets come from `make_bucket`. -/
def Sized : Option RateLimiter → Prop
  | none => True
  | some l => ∀ ty b, l.bucket ty = some b → 0 < b.size

variable {checks : Bool} {l : RateLimiter} {ty : TokenType} {b : TokenBucket} {now tokens : Nat}

theorem sized_setBucket (h : Sized (some l)) (hsize : 0 < b.size) : Sized (some (l.setBucket b ty)) := by
  intro ty' b' hb'
  by_cases heq : ty' = ty
  · rw [heq, bucket_setBucket_self] at hb'
    cases hb'
    exact hsize
  · rw [bucket_setBucket_ne heq] at hb'
    exact h ty' b' hb'

theorem sized_consume (h : Sized (some l)) : Sized (step checks (some l) (.consume now tokens ty)) := by
  rw [step]
  cases hc : l.consume checks now tokens ty with
  | error p => trivial
  | ok r =>
    obtain ⟨ok, l'⟩ := r
    intro ty' b' hb'
    have hb' : l'.bucket ty' = some b' := hb'
    cases consume_consumed hc with
    | blocked _ hl | unlimited _ hl => exact h ty' b' (hl ▸ hb')
    | reduced b b1 red _ hbucket hred hbucket' hother _ =>
      by_cases heq : ty' = ty
      · rw [heq, hbucket'] at hb'
        cases hb'
        rw [TokenBucket.reduce_size hred]
        exact h ty b hbucket
      · rw [hother ty' heq] at hb'
        exact h ty' b' hb'

theorem sized_updateBuckets (h : Sized (some l)) (bytes ops : BucketUpdate) :
    Sized (some (l.updateBuckets bytes ops)) := by
  have happly : ∀ (u : BucketUpdate) (bucket : Option TokenBucket), (∀ b, bucket = some b → 0 < b.size) →
      ∀ b, u.apply bucket = some b → 0 < b.size := by
    intro u bucket hbucket b hb
    cases u with
    | none => exact hbucket b hb
    | disabled => cases hb
    | update tb hsize =>
      cases hb
      exact hsize
  intro ty b hb
  cases ty with
  | bytes => exact happly bytes l.bandwidth (h .bytes) b hb
  | ops => exact happly ops l.ops (h .ops) b hb

theorem sized_manualReplenish (h : Sized (some l)) : Sized (step checks (some l) (.manualReplenish tokens ty)) := by
  rw [step, manualReplenish]
  cases hb : l.bucket ty with
  | none => exact h
  | some b =>
    simp only
    cases hforce : b.forceReplenish checks tokens with
    | error p => trivial
    | ok b' =>
      have hsize := TokenBucket.forceReplenish_size hforce
      exact sized_setBucket h (hsize ▸ h ty b hb)

theorem sized_step (s : Option RateLimiter) (c : LimiterCall) (h : Sized s) : Sized (step checks s c) := by
  cases s with
  | none => trivial
  | some l =>
    cases c with
    | consume now tokens ty => exact sized_consume h
    | eventHandler now =>
      intro ty b hb
      rw [bucket_eventHandler] at hb
      exact h ty b hb
    | updateBuckets bytes ops => exact sized_updateBuckets h bytes ops
    | manualReplenish tokens ty => exact sized_manualReplenish h

theorem makeBucket_size {size oneTimeBurst refillTime : Nat}
    (h : makeBucket checks now size oneTimeBurst refillTime = .ok (some b)) : 0 < b.size := by
  unfold makeBucket at h
  split at h
  · rename_i hne
    obtain ⟨b', hnew, hret⟩ := bind_eq_ok.mp h
    cases hret
    obtain ⟨ns, _, hret⟩ := bind_eq_ok.mp hnew
    cases hret
    exact Nat.pos_of_ne_zero hne.1
  · cases h

theorem sized_new (bytes ops : BucketConfig) : Sized (new checks now bytes ops).toOption := by
  cases h : new checks now bytes ops with
  | error p => trivial
  | ok l =>
    obtain ⟨bandwidth, hbandwidth, hrest⟩ := bind_eq_ok.mp h
    obtain ⟨opsBucket, hops, hret⟩ := bind_eq_ok.mp hrest
    cases hret
    intro ty b hb
    cases ty with
    | bytes =>
      cases hb
      exact makeBucket_size hbandwidth
    | ops =>
      cases hb
      exact makeBucket_size hops

/-! ### Blocking -/

theorem unblockable_of_timer {expiry : Nat} (h : l.timer = some expiry) : Unblockable (some l) := by
  refine fun _ => ⟨expiry, h, fun now hnow => ?_⟩
  rw [eventHandler, h]
  simp only [if_pos hnow]

theorem timerActive_setBucket : (l.setBucket b ty).timerActive = l.timerActive := by
  cases ty <;> rfl

/-- Only the timer matters. -/
theorem unblockable_congr {l' : RateLimiter} (h : Unblockable (some l)) (htimer : l'.timer = l.timer)
    (hactive : l'.timerActive = l.timerActive) : Unblockable (some l') := by
  intro hblocked
  obtain ⟨expiry, hexpiry, _⟩ := h (hactive.symm.trans hblocked)
  exact unblockable_of_timer (htimer.trans hexpiry) hblocked

theorem unblockable_activateTimer (ms : Nat) : Unblockable (some (l.activateTimer now ms)) ↔ ms ≠ 0 := by
  constructor
  · intro h hms
    obtain ⟨expiry, htimer, _⟩ := h rfl
    rw [activateTimer, hms] at htimer
    cases htimer
  · intro hms
    exact unblockable_of_timer (if_neg hms)

theorem blockMs_ne_zero {excess refillTime : Nat} (hsize : 0 < b.size) :
    blockMs ((excess : ℚ) / b.size) refillTime ≠ 0 ↔ b.size ≤ excess * refillTime := by
  have hpos : (0 : ℚ) < b.size := Nat.cast_pos.mpr hsize
  have hfloor : 1 ≤ ⌊(excess : ℚ) / b.size * refillTime⌋ ↔ b.size ≤ excess * refillTime := by
    rw [Int.le_floor, Int.cast_one, div_mul_eq_mul_div, one_le_div hpos]
    exact_mod_cast Iff.rfl
  rw [← hfloor, blockMs]
  unfold U64.max
  omega

theorem consume_unblockable_iff (h : Sized (some l)) (hp : Unblockable (some l)) :
    Unblockable (step checks (some l) (.consume now tokens ty)) ↔
      PaysForBlock checks (some l) (.consume now tokens ty) := by
  rw [step, consume]
  by_cases hactive : l.timerActive = true
  · rw [if_pos hactive]
    exact ⟨fun _ b hinactive => absurd (hactive.symm.trans hinactive) (by decide), fun _ => hp⟩
  · rw [if_neg hactive]
    cases hb : l.bucket ty with
    | none =>
      refine ⟨fun _ b _ hsome => ?_, fun _ => hp⟩
      rw [hb] at hsome
      cases hsome
    | some b =>
      have hpays : PaysForBlock checks (some l) (.consume now tokens ty) ↔
          (b.Overspent checks now tokens → b.size ≤ (tokens - b.oneTimeBurst - b.topUp now) * b.refillTime) := by
        constructor
        · intro h
          exact h b (Bool.eq_false_of_not_eq_true hactive) hb
        · intro h b' _ hb'
          rw [hb] at hb'
          cases hb'
          exact h
      rw [hpays]
      simp only
      cases hred : b.reduce checks now tokens with
      | error p =>
        have hnot := TokenBucket.not_overspent hred nofun
        exact ⟨fun _ hover => absurd hover hnot, fun _ => trivial⟩
      | ok r =>
        obtain ⟨red, b'⟩ := r
        cases red with
        | failure =>
          have hnot := TokenBucket.not_overspent hred nofun
          exact ⟨fun _ hover => absurd hover hnot, fun _ => (unblockable_activateTimer _).mpr (by decide)⟩
        | success =>
          have hnot := TokenBucket.not_overspent hred nofun
          have hinactive : (l.setBucket b' ty).timerActive ≠ true := by
            rw [timerActive_setBucket]
            exact hactive
          exact ⟨fun _ hover => absurd hover hnot, fun _ hblocked => absurd hblocked hinactive⟩
        | overConsumption ratio =>
          obtain ⟨hover, rfl, _⟩ := TokenBucket.reduce_overConsumption_iff.mp hred
          refine (unblockable_activateTimer _).trans ?_
          rw [blockMs_ne_zero (h ty b hb)]
          exact ⟨fun hle _ => hle, fun hle => hle hover⟩

theorem step_unblockable_iff (s : Option RateLimiter) (c : LimiterCall) (h : Sized s) (hp : Unblockable s) :
    Unblockable (step checks s c) ↔ PaysForBlock checks s c := by
  cases s with
  | none => exact ⟨fun _ => trivial, fun _ => trivial⟩
  | some l =>
    cases c with
    | consume now tokens ty => exact consume_unblockable_iff h hp
    | eventHandler now =>
      refine ⟨fun _ => trivial, fun _ => ?_⟩
      rw [step, eventHandler]
      cases htimer : l.timer with
      | none => exact hp
      | some expiry =>
        simp only
        split
        · exact nofun
        · exact hp
    | updateBuckets bytes ops => exact ⟨fun _ => trivial, fun _ => unblockable_congr hp rfl rfl⟩
    | manualReplenish tokens ty =>
      refine ⟨fun _ => trivial, fun _ => ?_⟩
      rw [step, manualReplenish]
      cases hb : l.bucket ty with
      | none => exact hp
      | some b =>
        simp only
        cases hforce : b.forceReplenish checks tokens with
        | error p => trivial
        | ok b' => exact unblockable_congr hp (by cases ty <;> rfl) timerActive_setBucket

/-- From a new limiter on. -/
theorem timer_runs_iff (checks : Bool) (now : Nat) (bytes ops : BucketConfig) (calls : List LimiterCall) :
    Always (step checks) Unblockable (new checks now bytes ops).toOption calls ↔
      Throughout (step checks) (PaysForBlock checks) (new checks now bytes ops).toOption calls := by
  have hp : Unblockable (new checks now bytes ops).toOption := by
    cases h : new checks now bytes ops with
    | error p => trivial
    | ok l =>
      obtain ⟨bandwidth, _, hrest⟩ := bind_eq_ok.mp h
      obtain ⟨opsBucket, _, hret⟩ := bind_eq_ok.mp hrest
      cases hret
      exact nofun
  exact always_iff sized_step step_unblockable_iff (sized_new bytes ops) hp calls

theorem consume_overspent (hactive : l.timerActive = false) (hb : l.bucket ty = some b)
    (hover : b.Overspent checks now tokens) : l.consume checks now tokens ty =
      .ok (true, (l.setBucket { b with oneTimeBurst := 0, budget := 0, lastUpdate := now } ty).activateTimer now
        (blockMs (((tokens - b.oneTimeBurst - b.topUp now : Nat) : ℚ) / b.size) b.refillTime)) := by
  have hred := TokenBucket.reduce_overConsumption_iff.mpr ⟨hover, rfl, rfl⟩
  rw [consume, if_neg (Bool.eq_false_iff.mp hactive), hb]
  simp only [hred]
  rfl

/-- A full bucket of 1000 bytes for each 100 ms, and no limit on operations. -/
def smallLimiter : RateLimiter := ⟨some (TokenBucket.made 0 1000 0 100), none, none, false⟩

/-- 1001 bytes are taken at once. -/
theorem blocked_without_timer :
    new true 0 ⟨1000, 0, 100⟩ ⟨0, 0, 0⟩ = .ok smallLimiter ∧
      (∃ l, smallLimiter.consume true 0 1001 .bytes = .ok (true, l) ∧ l.timerActive = true ∧ l.timer = none) ∧
      ¬ Always (step true) Unblockable (some smallLimiter) [.consume 0 1001 .bytes] := by
  have hover : (TokenBucket.made 0 1000 0 100).Overspent true 0 1001 := ⟨by decide, by decide, by decide, by decide⟩
  have hconsume := consume_overspent (rfl : smallLimiter.timerActive = false)
    (rfl : smallLimiter.bucket .bytes = _) hover
  -- the excess is paid for in a tenth of a millisecond
  have hzero : blockMs (((1001 - 0 - 1000 : Nat) : ℚ) / (TokenBucket.made 0 1000 0 100).size) 100 = 0 := by
    refine not_ne_iff.mp (mt (blockMs_ne_zero (by decide)).mp ?_)
    decide
  refine ⟨by decide, ⟨_, hconsume, rfl, ?_⟩, ?_⟩
  · exact if_pos hzero
  · rintro ⟨_, h⟩
    rw [step, hconsume] at h
    exact (unblockable_activateTimer _).mp h hzero

end RateLimiter
end Kata.Limiter
