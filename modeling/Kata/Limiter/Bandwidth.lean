import Mathlib.Data.Nat.Cast.Order.Field
import Mathlib.Tactic.LinearCombination
import Mathlib.Tactic.Linarith
import Kata.Limiter.RateLimiter
import Kata.Lib.Runs

/-!
# Kata.Limiter.Bandwidth

How many tokens a bucket hands out, over whole runs of the rate limiter.

A bucket with `size` tokens, a burst and a refill time is entitled to the burst, the size and what
the refill adds since it was created. A request for more than the size is granted at once, and its
debt is meant to be paid by blocking the limiter; but the bucket also refills while the limiter is
blocked, so the debt is never paid. `granted_le` proves the bound for the runs in which a call
behind such a request comes one refill time after the debt is paid. `debt_is_forgiven` is a run that
breaks the bound.
-/

namespace Kata.Limiter

open Lib

/-! ## Refill -/

theorem gcdLoop_eq {fuel x y : Nat} (h : y < fuel) : gcdLoop fuel x y = Nat.gcd x y := by
  induction fuel generalizing x y with
  | zero => omega
  | succ fuel ih =>
    unfold gcdLoop
    split
    · rename_i hy
      rw [hy, Nat.gcd_zero_right]
    · rename_i hy
      have hlt : x % y < y := Nat.mod_lt _ (Nat.pos_of_ne_zero hy)
      rw [ih (by omega), Nat.gcd_comm x y, Nat.gcd_rec y x, Nat.gcd_comm]

theorem gcd_eq (x y : Nat) : gcd x y = Nat.gcd x y := gcdLoop_eq (Nat.lt_succ_self y)

namespace TokenBucket

/-- The refill time in nanoseconds. -/
def refillNs (b : TokenBucket) : Nat := b.refillTime * nanosecInOneMillisec

/-- The processed values are the size and the refill time, reduced. -/
structure Sound (b : TokenBucket) : Prop where
  size : 0 < b.size
  refill : 0 < b.refillNs
  processed : 0 < b.processedRefillTime
  rate : b.processedCapacity * b.refillNs = b.size * b.processedRefillTime

/-- What a bucket may have handed out at a time. -/
def entitled (b : TokenBucket) (t : Nat) : ℚ := b.initialOneTimeBurst + b.size + b.size * t / b.refillNs

variable {checks : Bool} {b b' : TokenBucket} {now : Nat}

theorem new_sound {size burst refill : Nat} (hsize : size ≠ 0) (hrefill : refill ≠ 0)
    (h : new checks now size burst refill = .ok b) (hfits : b.refillNs ≤ U64.max) :
    b.Sound ∧ b.oneTimeBurst = b.initialOneTimeBurst ∧ b.budget = b.size ∧ b.lastUpdate = now := by
  unfold new at h
  obtain ⟨ns, hmul, hret⟩ := bind_eq_ok.mp h
  cases hret
  have hle : refill * nanosecInOneMillisec ≤ U64.max := hfits
  rw [U64.mul_of_le hle] at hmul
  cases hmul
  have hns : 0 < refill * nanosecInOneMillisec := Nat.mul_pos (Nat.pos_of_ne_zero hrefill) (by decide)
  refine ⟨⟨Nat.pos_of_ne_zero hsize, hns, ?_, ?_⟩, rfl, rfl, rfl⟩
  · rw [gcd_eq]
    exact Nat.div_pos (Nat.gcd_le_right _ hns) (Nat.gcd_pos_of_pos_right _ hns)
  · obtain ⟨c, hc⟩ := Nat.gcd_dvd_left size (refill * nanosecInOneMillisec)
    obtain ⟨d, hd⟩ := Nat.gcd_dvd_right size (refill * nanosecInOneMillisec)
    have hpos : 0 < Nat.gcd size (refill * nanosecInOneMillisec) := Nat.gcd_pos_of_pos_right _ hns
    rw [gcd_eq, refillNs]
    rw [Nat.div_eq_of_eq_mul_right hpos hc, Nat.div_eq_of_eq_mul_right hpos hd]
    calc c * (refill * nanosecInOneMillisec) = c * (Nat.gcd size (refill * nanosecInOneMillisec) * d) := by rw [← hd]
      _ = Nat.gcd size (refill * nanosecInOneMillisec) * c * d := by ring
      _ = size * d := by rw [← hc]

/-- What accrues in a time, before it is rounded down. -/
def accrued (b : TokenBucket) (ns : Nat) : ℚ := b.size * ns / b.refillNs

theorem entitled_sub {t t' : Nat} (h : t ≤ t') : b.entitled t' = b.entitled t + b.accrued (t' - t) := by
  unfold entitled accrued
  rw [Nat.cast_sub h]
  ring

theorem accrued_nonneg (ns : Nat) : 0 ≤ b.accrued ns := by
  unfold accrued
  positivity

theorem entitled_mono {t t' : Nat} (h : t ≤ t') : b.entitled t ≤ b.entitled t' := by
  rw [entitled_sub h]
  linarith [b.accrued_nonneg (t' - t)]

theorem refill_le (hs : b.Sound) {ns amount : Nat} (h : amount ≤ ns * b.processedCapacity) :
    ((amount / b.processedRefillTime : Nat) : ℚ) ≤ b.accrued ns := by
  have hns : (0 : ℚ) < b.refillNs := Nat.cast_pos.mpr hs.refill
  have hprocessed : (0 : ℚ) < b.processedRefillTime := Nat.cast_pos.mpr hs.processed
  have hrate : (b.processedCapacity : ℚ) * b.refillNs = b.size * b.processedRefillTime := by
    exact_mod_cast hs.rate
  have hamount : (amount : ℚ) ≤ ns * b.processedCapacity := by exact_mod_cast h
  calc ((amount / b.processedRefillTime : Nat) : ℚ) ≤ amount / b.processedRefillTime := Nat.cast_div_le
    _ ≤ ns * b.processedCapacity / b.processedRefillTime := by gcongr
    _ = b.accrued ns := by
      unfold accrued
      rw [div_eq_div_iff hprocessed.ne' hns.ne']
      linear_combination (ns : ℚ) * hrate

theorem autoReplenish_spec (hs : b.Sound) (h : b.autoReplenish checks now = .ok b') :
    ∃ budget, b' = { b with budget := budget, lastUpdate := now } ∧ budget ≤ b.size ∧
      (budget : ℚ) ≤ b.budget + b.accrued (now - b.lastUpdate) := by
  unfold autoReplenish at h
  obtain ⟨amount, hamount, h1⟩ := bind_eq_ok.mp h
  split at h1
  · cases h1
  · obtain ⟨sum, hsum, h2⟩ := bind_eq_ok.mp h1
    cases h2
    refine ⟨_, rfl, Nat.min_le_right _ _, ?_⟩
    have hle : amount ≤ (now - b.lastUpdate) * b.processedCapacity :=
      Nat.le_trans (U64.mul_le hamount) (Nat.mul_le_mul_right _ (Nat.mod_le _ _))
    have hbudget : (min sum b.size : Nat) ≤ b.budget + amount / b.processedRefillTime :=
      Nat.le_trans (Nat.min_le_left _ _) (U64.add_le hsum)
    calc ((min sum b.size : Nat) : ℚ) ≤ (b.budget + amount / b.processedRefillTime : Nat) := by exact_mod_cast hbudget
      _ = b.budget + (amount / b.processedRefillTime : Nat) := by push_cast; rfl
      _ ≤ b.budget + b.accrued (now - b.lastUpdate) := by linarith [refill_le hs hle]

/-! ## One call -/

/-- What has been granted, with what is left, is within what the bucket was entitled to at its last
update; or the last request was granted beyond the size, by `ratio` times the size. -/
inductive Backed (b : TokenBucket) (granted : Nat) (owed : Option (Nat × ℚ)) : Prop where
  | clean (h : (granted + b.oneTimeBurst + b.budget : ℚ) ≤ b.entitled b.lastUpdate)
  | owing (ratio : ℚ) (hburst : b.oneTimeBurst = 0) (hbudget : b.budget = 0)
    (howed : owed = some (b.lastUpdate, ratio))
      (h : (granted : ℚ) ≤ b.entitled b.lastUpdate + ratio * b.size)

/-- The last over-consumption is one refill time longer ago than it takes to pay for it. -/
def Settled (b : TokenBucket) (owed : Option (Nat × ℚ)) (now : Nat) : Prop :=
  ∀ t ratio, owed = some (t, ratio) → t + (ratio + 1) * b.refillNs ≤ now

variable {granted : Nat} {owed : Option (Nat × ℚ)}

theorem Settled.accrued {t : Nat} {ratio : ℚ} (hs : b.Sound) (h : Settled b (some (t, ratio)) now) (ht : t ≤ now) :
    ratio * b.size + b.size ≤ b.accrued (now - t) := by
  have hns : (0 : ℚ) < b.refillNs := Nat.cast_pos.mpr hs.refill
  have hle := h t ratio rfl
  have hsize : (0 : ℚ) ≤ b.size := Nat.cast_nonneg _
  unfold TokenBucket.accrued
  rw [le_div_iff₀ hns, Nat.cast_sub ht]
  calc (ratio * b.size + b.size) * b.refillNs = b.size * ((ratio + 1) * b.refillNs) := by ring
    _ ≤ b.size * (now - t) := by
      apply mul_le_mul_of_nonneg_left _ hsize
      linarith

theorem Backed.le (hs : b.Sound) (h : Backed b granted owed) (hset : Settled b owed now) (ht : b.lastUpdate ≤ now) :
    (granted : ℚ) ≤ b.entitled now := by
  cases h with
  | clean h =>
    have hmono := b.entitled_mono ht
    have hburst : (0 : ℚ) ≤ b.oneTimeBurst := Nat.cast_nonneg _
    have hbudget : (0 : ℚ) ≤ b.budget := Nat.cast_nonneg _
    linarith
  | owing ratio hburst hbudget howed h =>
    subst howed
    have hpaid := hset.accrued hs ht
    have hsize : (0 : ℚ) ≤ b.size := Nat.cast_nonneg _
    rw [entitled_sub ht]
    linarith

theorem Backed.mono {granted' : Nat} (h : Backed b granted owed) (hle : granted' ≤ granted) :
    Backed b granted' owed := by
  have hcast : (granted' : ℚ) ≤ granted := Nat.cast_le.mpr hle
  cases h with
  | clean h => exact .clean (by linarith)
  | owing ratio hburst hbudget howed h => exact .owing ratio hburst hbudget howed (by linarith)

/-- A replenish leaves no debt behind. -/
theorem Backed.replenish (hs : b.Sound) (h : Backed b granted owed) (hset : Settled b owed now)
    (ht : b.lastUpdate ≤ now) (hrep : b.autoReplenish checks now = .ok b') :
    ∃ budget, b' = { b with budget := budget, lastUpdate := now } ∧
      (granted + b.oneTimeBurst + budget : ℚ) ≤ b.entitled now := by
  obtain ⟨budget, hb', hsize, hbudget⟩ := autoReplenish_spec hs hrep
  refine ⟨budget, hb', ?_⟩
  rw [entitled_sub ht]
  cases h with
  | clean h => linarith
  | owing ratio hburst hzero howed h =>
    subst howed
    have hpaid := hset.accrued hs ht
    have hsize' : (budget : ℚ) ≤ b.size := Nat.cast_le.mpr hsize
    rw [hburst, Nat.cast_zero]
    linarith

/-- The state of the books after a call. -/
def booked (tokens granted : Nat) (owed : Option (Nat × ℚ)) (now : Nat) : BucketReduction → Nat × Option (Nat × ℚ)
  | .failure => (granted, owed)
  | .success => (granted + tokens, owed)
  | .overConsumption ratio => (granted + tokens, some (now, ratio))

/-- Only the burst, the budget and the time of the last update have changed. -/
def Kept (b b' : TokenBucket) : Prop :=
  b' = { b with oneTimeBurst := b'.oneTimeBurst, budget := b'.budget, lastUpdate := b'.lastUpdate }

/-- What is spent moves from the budget to what has been granted. -/
theorem Backed.spend {tokens : Nat} (h : Backed b granted owed) (hle : tokens ≤ b.budget) :
    Backed { b with budget := b.budget - tokens } (granted + tokens) owed := by
  cases h with
  | clean h =>
    refine .clean ?_
    have hsub : ((b.budget - tokens : Nat) : ℚ) = b.budget - tokens := Nat.cast_sub hle
    have hgoal : ((granted + tokens : Nat) + b.oneTimeBurst + (b.budget - tokens : Nat) : ℚ) ≤
        b.entitled b.lastUpdate := by
      rw [hsub, Nat.cast_add]
      linarith
    exact hgoal
  | owing ratio hburst hbudget howed h =>
    have hzero : tokens = 0 := by omega
    subst hzero
    exact .owing ratio hburst hbudget howed h

theorem spend_backed {tokens : Nat} {red : BucketReduction} (hs : b.Sound) (hburst : b.oneTimeBurst = 0)
    (hb : Backed b granted owed) (hset : Settled b owed now) (ht : b.lastUpdate ≤ now)
    (h : b.spend checks now tokens = .ok (red, b')) :
    Kept b b' ∧ b'.lastUpdate ≤ now ∧
      Backed b' (booked tokens granted owed now red).1 (booked tokens granted owed now red).2 := by
  unfold TokenBucket.spend at h
  split at h
  · obtain ⟨b1, hrep, hrest⟩ := bind_eq_ok.mp h
    obtain ⟨budget, rfl, hclean⟩ := hb.replenish hs hset ht hrep
    have hbacked : Backed { b with budget := budget, lastUpdate := now } granted owed := .clean hclean
    simp only at hrest
    split at hrest
    · cases hrest
      refine ⟨rfl, Nat.le_refl _, .owing _ hburst rfl rfl ?_⟩
      have hsize : (b.size : ℚ) ≠ 0 := (Nat.cast_pos.mpr hs.size).ne'
      have hle : tokens ≤ tokens - budget + budget := by omega
      have hdebt : (tokens : ℚ) ≤ (tokens - budget : Nat) + budget := by exact_mod_cast hle
      have hgoal : ((granted + tokens : Nat) : ℚ) ≤ b.entitled now + (tokens - budget : Nat) / b.size * b.size := by
        rw [div_mul_cancel₀ _ hsize, Nat.cast_add]
        rw [hburst, Nat.cast_zero] at hclean
        linarith
      exact hgoal
    · split at hrest
      · cases hrest
        exact ⟨rfl, Nat.le_refl _, hbacked⟩
      · rename_i hle
        cases hrest
        exact ⟨rfl, Nat.le_refl _, hbacked.spend (Nat.le_of_not_lt hle)⟩
  · rename_i hle
    cases h
    exact ⟨rfl, ht, hb.spend (Nat.le_of_not_lt hle)⟩

theorem reduce_backed {tokens : Nat} {red : BucketReduction} (hs : b.Sound) (hb : Backed b granted owed)
    (hset : Settled b owed now) (ht : b.lastUpdate ≤ now) (h : b.reduce checks now tokens = .ok (red, b')) :
    Kept b b' ∧ b'.lastUpdate ≤ now ∧
      Backed b' (booked tokens granted owed now red).1 (booked tokens granted owed now red).2 := by
  unfold reduce at h
  split at h
  · rename_i hpos
    have hclean : (granted + b.oneTimeBurst + b.budget : ℚ) ≤ b.entitled b.lastUpdate := by
      cases hb with
      | clean h => exact h
      | owing ratio hburst _ _ _ => omega
    split at h
    · rename_i hle
      cases h
      refine ⟨rfl, Nat.le_refl _, .clean ?_⟩
      have hsub : ((b.oneTimeBurst - tokens : Nat) : ℚ) = b.oneTimeBurst - tokens := Nat.cast_sub hle
      have hmono := b.entitled_mono ht
      have hgoal : ((granted + tokens : Nat) + (b.oneTimeBurst - tokens : Nat) + b.budget : ℚ) ≤ b.entitled now := by
        rw [hsub, Nat.cast_add]
        linarith
      exact hgoal
    · -- the rest of the burst counts as granted, whatever becomes of the request
      rename_i hlt
      have hrest : Backed { b with oneTimeBurst := 0 } (granted + b.oneTimeBurst) owed := by
        refine .clean ?_
        have hgoal : ((granted + b.oneTimeBurst : Nat) + (0 : Nat) + b.budget : ℚ) ≤ b.entitled b.lastUpdate := by
          rw [Nat.cast_add, Nat.cast_zero]
          linarith
        exact hgoal
      have hsound : Sound { b with oneTimeBurst := 0 } := ⟨hs.size, hs.refill, hs.processed, hs.rate⟩
      obtain ⟨hkept, hnow, hback⟩ := spend_backed hsound rfl hrest hset ht h
      refine ⟨hkept, hnow, ?_⟩
      have hsum : granted + b.oneTimeBurst + (tokens - b.oneTimeBurst) = granted + tokens := by omega
      cases red with
      | failure => exact hback.mono (Nat.le_add_right _ _)
      | success | overConsumption ratio => exact hback.mono (Nat.le_of_eq hsum.symm)
  · exact spend_backed hs (by omega) hb hset ht h

theorem Kept.entitled (h : Kept b b') (t : Nat) : b'.entitled t = b.entitled t := by
  rw [h]
  rfl

theorem Kept.sound (h : Kept b b') (hs : b.Sound) : b'.Sound := by
  rw [h]
  exact ⟨hs.size, hs.refill, hs.processed, hs.rate⟩

theorem Kept.trans {b'' : TokenBucket} (h : Kept b b') (h' : Kept b' b'') : Kept b b'' := by
  cases b
  cases b'
  cases b''
  simp only [Kept, mk.injEq] at h h' ⊢
  grind

end TokenBucket

namespace RateLimiter

variable {checks : Bool} {now : Nat} {l l' : RateLimiter} {ty ty' : TokenType} {b : TokenBucket}

@[simp] theorem bucket_activateTimer (ms : Nat) : (l.activateTimer now ms).bucket ty = l.bucket ty := by
  cases ty <;> rfl

@[simp] theorem bucket_setBucket_self : (l.setBucket b ty).bucket ty = some b := by
  cases ty <;> rfl

theorem bucket_setBucket_ne (h : ty' ≠ ty) : (l.setBucket b ty).bucket ty' = l.bucket ty' := by
  cases ty <;> cases ty' <;> first | rfl | exact absurd rfl h

theorem bucket_eventHandler : (l.eventHandler now).2.bucket ty = l.bucket ty := by
  unfold eventHandler
  split
  · rfl
  · split
    · cases ty <;> rfl
    · rfl

/-- How a call ends: it is refused by the timer, there is no bucket, or the bucket has decided. -/
inductive Consumed (checks : Bool) (now : Nat) (l : RateLimiter) (tokens : Nat) (ty : TokenType) (ok : Bool)
    (l' : RateLimiter) : Prop where
  | blocked (hok : ok = false) (hl : l' = l)
  | unlimited (hbucket : l.bucket ty = none) (hl : l' = l)
  | reduced (b b' : TokenBucket) (red : BucketReduction) (htimer : l.timerActive = false)
      (hbucket : l.bucket ty = some b) (hred : b.reduce checks now tokens = .ok (red, b'))
      (hbucket' : l'.bucket ty = some b') (hother : ∀ ty' ≠ ty, l'.bucket ty' = l.bucket ty')
      (hok : ok = true ↔ red ≠ .failure)

theorem consume_consumed {tokens : Nat} {ok : Bool} (h : l.consume checks now tokens ty = .ok (ok, l')) :
    Consumed checks now l tokens ty ok l' := by
  unfold consume at h
  split at h
  · cases h
    exact .blocked rfl rfl
  · rename_i htimer
    rw [Bool.not_eq_true] at htimer
    split at h
    · rename_i hbucket
      cases h
      exact .unlimited hbucket rfl
    · rename_i b hbucket
      obtain ⟨⟨red, b'⟩, hred, hrest⟩ := bind_eq_ok.mp h
      cases red with
      | failure =>
        cases hrest
        refine .reduced b b' .failure htimer hbucket hred ?_ ?_ (by simp)
        · rw [bucket_activateTimer, bucket_setBucket_self]
        · intro ty' hne
          rw [bucket_activateTimer, bucket_setBucket_ne hne]
      | success =>
        cases hrest
        exact .reduced b b' .success htimer hbucket hred bucket_setBucket_self
          (fun ty' hne => bucket_setBucket_ne hne) (by simp)
      | overConsumption ratio =>
        cases hrest
        refine .reduced b b' (.overConsumption ratio) htimer hbucket hred ?_ ?_ (by simp)
        · rw [bucket_activateTimer, bucket_setBucket_self]
        · intro ty' hne
          rw [bucket_activateTimer, bucket_setBucket_ne hne]

end RateLimiter

/-! ## Runs -/

inductive Op where
  | wait (ns : Nat)
  | event
  | consume (tokens : Nat) (tokenType : TokenType)

/-- The limiter, the time since it was created, and the books about one type of tokens. -/
structure Metered where
  limiter : RateLimiter
  now : Nat
  granted : Nat
  before : Nat  -- granted before the most recent grant
  owed : Option (Nat × ℚ)  -- the last over-consumption
deriving DecidableEq

namespace Metered

variable (checks : Bool) (ty : TokenType)

def start (limiter : RateLimiter) : Metered := ⟨limiter, 0, 0, 0, none⟩

/-- The books after a call that was granted: an over-consumption is noted with its time. -/
def owedAfter (s : Metered) (tokens : Nat) : Option (Nat × ℚ) :=
  match s.limiter.bucket ty with
  | none => s.owed
  | some b =>
    match b.reduce checks s.now tokens with
    | .ok (.overConsumption ratio, _) => some (s.now, ratio)
    | _ => s.owed

def next (s : Metered) : Op → Except Panic Metered
  | .wait ns => .ok { s with now := s.now + ns }
  | .event => .ok { s with limiter := (s.limiter.eventHandler s.now).2 }
  | .consume tokens tokenType => do
    let (ok, l) ← s.limiter.consume checks s.now tokens tokenType
    if ok ∧ tokenType = ty then
      return {
        limiter := l
        now := s.now
        granted := s.granted + tokens
        before := s.granted
        owed := s.owedAfter checks ty tokens }
    else return { s with limiter := l }

/-- A call that is not blocked comes late enough after the last over-consumption. -/
def Patient (s : Metered) : Op → Prop
  | .consume _ tokenType => tokenType = ty → s.limiter.timerActive = false →
      ∀ b, s.limiter.bucket ty = some b → b.Settled s.owed s.now
  | _ => True

def Step (s : Metered) (op : Op) (s' : Metered) : Prop := Patient ty s op ∧ s.next checks ty op = .ok s'

/-- The books agree with the bucket, which is `b` but for its contents. -/
structure Balanced (b : TokenBucket) (s : Metered) : Prop where
  bucket : ∃ b', s.limiter.bucket ty = some b' ∧ b.Kept b' ∧ b'.lastUpdate ≤ s.now ∧ b'.Backed s.granted s.owed
  before : (s.before : ℚ) ≤ b.entitled s.now

variable {checks ty} {b : TokenBucket} {s s' : Metered} {op : Op}

theorem owedAfter_booked {tokens : Nat} {b1 b' : TokenBucket} {red : BucketReduction}
    (hbucket : s.limiter.bucket ty = some b1) (hred : b1.reduce checks s.now tokens = .ok (red, b')) :
    s.owedAfter checks ty tokens = (TokenBucket.booked tokens s.granted s.owed s.now red).2 := by
  unfold owedAfter
  rw [hbucket]
  simp only [hred]
  cases red <;> rfl

theorem Balanced.consume {tokens : Nat} {tokenType : TokenType} (hs : b.Sound) (hb : Balanced ty b s)
    (hp : Patient ty s (.consume tokens tokenType)) (h : s.next checks ty (.consume tokens tokenType) = .ok s') :
    Balanced ty b s' := by
  obtain ⟨⟨b1, hbucket, hkept, hnow, hback⟩, hbefore⟩ := hb
  obtain ⟨⟨ok, l⟩, hcall, hrest⟩ := bind_eq_ok.mp h
  simp only at hrest
  have hsame : l.bucket ty = s.limiter.bucket ty → Balanced ty b { s with limiter := l } := by
    intro hl
    exact ⟨⟨b1, hl.trans hbucket, hkept, hnow, hback⟩, hbefore⟩
  cases RateLimiter.consume_consumed hcall with
  | blocked hok hl =>
    subst hok
    rw [if_neg (fun hand => Bool.false_ne_true hand.1)] at hrest
    cases hrest
    exact hsame (by rw [hl])
  | unlimited hnone hl =>
    have hne : tokenType ≠ ty := by
      rintro rfl
      rw [hbucket] at hnone
      cases hnone
    rw [if_neg (fun hand => hne hand.2)] at hrest
    cases hrest
    exact hsame (by rw [hl])
  | reduced b2 b3 red htimer hbucket2 hred hbucket3 hother hok =>
    by_cases hty : tokenType = ty
    · subst hty
      rw [hbucket] at hbucket2
      cases hbucket2
      have hs1 := hkept.sound hs
      have hset := hp rfl htimer b1 hbucket
      obtain ⟨hkept3, hnow3, hback3⟩ := TokenBucket.reduce_backed hs1 hback hset hnow hred
      have hle : (s.granted : ℚ) ≤ b.entitled s.now := by
        rw [← hkept.entitled]
        exact hback.le hs1 hset hnow
      by_cases hfail : red = .failure
      · subst hfail
        rw [if_neg (fun hand => hok.mp hand.1 rfl)] at hrest
        cases hrest
        exact ⟨⟨b3, hbucket3, hkept.trans hkept3, hnow3, hback3⟩, hbefore⟩
      · rw [if_pos ⟨hok.mpr hfail, rfl⟩] at hrest
        cases hrest
        refine ⟨⟨b3, hbucket3, hkept.trans hkept3, hnow3, ?_⟩, hle⟩
        rw [owedAfter_booked hbucket hred]
        cases red with
        | failure => exact absurd rfl hfail
        | success | overConsumption ratio => exact hback3
    · rw [if_neg (fun hand => hty hand.2)] at hrest
      cases hrest
      exact hsame (hother ty (Ne.symm hty))

theorem Balanced.step (hs : b.Sound) (hb : Balanced ty b s) (h : Step checks ty s op s') : Balanced ty b s' := by
  obtain ⟨hp, hnext⟩ := h
  cases op with
  | wait ns =>
    cases hnext
    obtain ⟨⟨b1, hbucket, hkept, hnow, hback⟩, hbefore⟩ := hb
    refine ⟨⟨b1, hbucket, hkept, Nat.le_add_right_of_le hnow, hback⟩, ?_⟩
    exact le_trans hbefore (b.entitled_mono (Nat.le_add_right _ _))
  | event =>
    cases hnext
    obtain ⟨⟨b1, hbucket, hkept, hnow, hback⟩, hbefore⟩ := hb
    exact ⟨⟨b1, RateLimiter.bucket_eventHandler.trans hbucket, hkept, hnow, hback⟩, hbefore⟩
  | consume tokens tokenType => exact hb.consume hs hp hnext

theorem balanced_start {bytes ops : RateLimiter.BucketConfig} {limiter : RateLimiter}
    (hnew : RateLimiter.new checks 0 bytes ops = .ok limiter) (hbucket : limiter.bucket ty = some b)
    (hfits : b.refillNs ≤ U64.max) : b.Sound ∧ Balanced ty b (start limiter) := by
  have hmake : ∃ c : RateLimiter.BucketConfig,
      RateLimiter.makeBucket checks 0 c.totalCapacity c.oneTimeBurst c.completeRefillTimeMs = .ok (some b) := by
    obtain ⟨bandwidth, hbytes, h1⟩ := bind_eq_ok.mp hnew
    obtain ⟨opsBucket, hops, h2⟩ := bind_eq_ok.mp h1
    cases h2
    cases ty with
    | bytes => exact ⟨bytes, hbytes.trans (congrArg _ hbucket)⟩
    | ops => exact ⟨ops, hops.trans (congrArg _ hbucket)⟩
  obtain ⟨c, hc⟩ := hmake
  unfold RateLimiter.makeBucket at hc
  split at hc
  · rename_i hne
    obtain ⟨b', hb', hret⟩ := bind_eq_ok.mp hc
    cases hret
    obtain ⟨hs, hburst, hbudget, hupdate⟩ := TokenBucket.new_sound hne.1 hne.2 hb' hfits
    have hfull : ((0 : Nat) + b.oneTimeBurst + b.budget : ℚ) ≤ b.entitled b.lastUpdate := by
      rw [hburst, hbudget, hupdate]
      unfold TokenBucket.entitled
      simp
    have hzero : ((0 : Nat) : ℚ) ≤ b.entitled 0 := by
      unfold TokenBucket.entitled
      positivity
    exact ⟨hs, ⟨b, hbucket, rfl, Nat.le_of_eq hupdate, .clean hfull⟩, hzero⟩
  · cases hc

/-- In every run whose calls are patient, the tokens granted before the most recent grant are at
most the burst, the size and what the refill time adds. -/
theorem granted_le {bytes ops : RateLimiter.BucketConfig} {limiter : RateLimiter} {history : List Op}
    (hnew : RateLimiter.new checks 0 bytes ops = .ok limiter) (hbucket : limiter.bucket ty = some b)
    (hfits : b.refillNs ≤ U64.max) (hrun : Run (Step checks ty) (start limiter) history s) :
    (s.before : ℚ) ≤
      b.initialOneTimeBurst + b.size + b.size * ((s.now : ℚ) / nanosecInOneMillisec) / b.refillTime := by
  obtain ⟨hs, hstart⟩ := balanced_start hnew hbucket hfits
  have hb := hrun.invariant (I := Balanced ty b) (fun _ _ _ hI hstep => hI.step hs hstep) hstart
  calc (s.before : ℚ) ≤ b.entitled s.now := hb.before
    _ = b.initialOneTimeBurst + b.size + b.size * ((s.now : ℚ) / nanosecInOneMillisec) / b.refillTime := by
      unfold TokenBucket.entitled TokenBucket.refillNs
      rw [← mul_div_assoc, div_div, Nat.cast_mul, mul_comm (nanosecInOneMillisec : ℚ)]

/-- A limiter for bytes only, without a timer. -/
def limited (b : TokenBucket) : RateLimiter := ⟨some b, none, none, false⟩

/-- A full bucket of 10 tokens with a burst of 5 that refills in one second. -/
def fullBucket : TokenBucket := ⟨10, 5, 1000, 5, 10, 0, 1, 100000000⟩

/-- The bucket has been emptied at once and then, half a second later, again. -/
def emptiedTwice : Metered :=
  ⟨limited ⟨10, 5, 1000, 0, 0, 500000000, 1, 100000000⟩, 500000000, 20, 15, none⟩

theorem granted_le_emptiedTwice :
    (emptiedTwice.before : ℚ) ≤ fullBucket.initialOneTimeBurst + fullBucket.size +
      fullBucket.size * ((emptiedTwice.now : ℚ) / nanosecInOneMillisec) / fullBucket.refillTime := by
  have hnew : RateLimiter.new true 0 ⟨10, 5, 1000⟩ ⟨0, 0, 0⟩ = .ok (limited fullBucket) := by decide
  have hall : next true .bytes (start (limited fullBucket)) (.consume 15 .bytes) =
      .ok ⟨limited ⟨10, 5, 1000, 0, 0, 0, 1, 100000000⟩, 0, 15, 0, none⟩ := by
    decide
  have hwait : next true .bytes ⟨limited ⟨10, 5, 1000, 0, 0, 0, 1, 100000000⟩, 0, 15, 0, none⟩ (.wait 500000000) =
      .ok ⟨limited ⟨10, 5, 1000, 0, 0, 0, 1, 100000000⟩, 500000000, 15, 0, none⟩ := by
    decide
  have hmore : next true .bytes ⟨limited ⟨10, 5, 1000, 0, 0, 0, 1, 100000000⟩, 500000000, 15, 0, none⟩
      (.consume 5 .bytes) = .ok emptiedTwice := by
    decide
  have hrun : Run (Step true .bytes) (start (limited fullBucket))
      [.consume 15 .bytes, .wait 500000000, .consume 5 .bytes] emptiedTwice :=
    .cons ⟨fun _ _ _ _ => nofun, hall⟩ (.cons ⟨trivial, hwait⟩ (.cons ⟨fun _ _ _ _ => nofun, hmore⟩ .nil))
  exact granted_le hnew rfl (by decide) hrun

/-- 20 tokens from a bucket of 10 block the limiter for the second in which the bucket fills up
again, so that 10 more tokens and another request of 20 are granted after it. -/
theorem debt_is_forgiven :
    RateLimiter.new true 0 ⟨10, 0, 1000⟩ ⟨0, 0, 0⟩ = .ok (limited ⟨10, 0, 1000, 0, 10, 0, 1, 100000000⟩) ∧
    [Op.consume 20 .bytes, .wait 1000000000, .event, .consume 10 .bytes, .consume 20 .bytes].foldlM
        (next true .bytes) (start (limited ⟨10, 0, 1000, 0, 10, 0, 1, 100000000⟩)) =
      .ok ⟨⟨some ⟨10, 0, 1000, 0, 0, 1000000000, 1, 100000000⟩, none, some 3000000000, true⟩,
        1000000000, 50, 30, some (1000000000, 2)⟩ ∧
    ¬ ((30 : ℚ) ≤ 0 + 10 + 10 * (1000000000 / 1000000) / 1000) := by
  refine ⟨by decide, by decide +kernel, by norm_num⟩

end Metered

end Kata.Limiter
