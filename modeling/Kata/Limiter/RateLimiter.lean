import Mathlib.Data.Rat.Floor
import Kata.Lib.Outcome
import Kata.Lib.U64

/-!
# Kata.Limiter.RateLimiter

Token buckets and the rate limiter (`dbs_utils/src/rate_limiter.rs`).

Time is in nanoseconds since an origin, and a call sees one time only. The ratio of an
over-consumption is a rational, not an `f64`. The timer is the moment at which it expires; a timer
that is armed with a duration of zero is disarmed, as with `timerfd`. `checks` is the build setting
`overflow-checks`.
-/

namespace Kata.Limiter

open Lib

inductive Panic where
  | overflow
  | divisionByZero
deriving DecidableEq, Repr

def nanosecInOneMillisec : Nat := 1000000
def refillTimerIntervalMs : Nat := 10

/-- The loop of `gcd`, with at most `fuel` turns. -/
def gcdLoop : Nat → Nat → Nat → Nat
  | 0, x, _ => x
  | fuel + 1, x, y => if y = 0 then x else gcdLoop fuel y (x % y)

def gcd (x y : Nat) : Nat := gcdLoop (y + 1) x y

inductive BucketReduction where
  | failure
  | success
  | overConsumption (ratio : ℚ)
deriving DecidableEq

structure TokenBucket where
  size : Nat
  initialOneTimeBurst : Nat
  refillTime : Nat
  oneTimeBurst : Nat
  budget : Nat
  lastUpdate : Nat
  processedCapacity : Nat
  processedRefillTime : Nat
deriving DecidableEq

namespace TokenBucket

variable (checks : Bool) (now : Nat)

def new (size oneTimeBurst completeRefillTimeMs : Nat) : Except Panic TokenBucket := do
  let completeRefillTimeNs ← U64.mul checks .overflow completeRefillTimeMs nanosecInOneMillisec
  let commonFactor := gcd size completeRefillTimeNs
  return {
    size := size
    initialOneTimeBurst := oneTimeBurst
    refillTime := completeRefillTimeMs
    oneTimeBurst := oneTimeBurst
    budget := size
    lastUpdate := now
    processedCapacity := size / commonFactor
    processedRefillTime := completeRefillTimeNs / commonFactor }

variable (b : TokenBucket)

def autoReplenish : Except Panic TokenBucket := do
  let timeDelta := (now - b.lastUpdate) % 2 ^ 64
  let amount ← U64.mul checks .overflow timeDelta b.processedCapacity
  if b.processedRefillTime = 0 then .error .divisionByZero
  else
    let sum ← U64.add checks .overflow b.budget (amount / b.processedRefillTime)
    return { b with budget := min sum b.size, lastUpdate := now }

/-- The part of `reduce` behind the burst. -/
def spend (tokens : Nat) : Except Panic (BucketReduction × TokenBucket) :=
  if tokens > b.budget then do
    let b ← b.autoReplenish checks now
    if tokens > b.size then
      return (.overConsumption (((tokens - b.budget : Nat) : ℚ) / b.size), { b with budget := 0 })
    else if tokens > b.budget then return (.failure, b)
    else return (.success, { b with budget := b.budget - tokens })
  else .ok (.success, { b with budget := b.budget - tokens })

def reduce (tokens : Nat) : Except Panic (BucketReduction × TokenBucket) :=
  if b.oneTimeBurst > 0 then
    if b.oneTimeBurst ≥ tokens then
      .ok (.success, { b with oneTimeBurst := b.oneTimeBurst - tokens, lastUpdate := now })
    else { b with oneTimeBurst := 0 }.spend checks now (tokens - b.oneTimeBurst)
  else b.spend checks now tokens

def forceReplenish (tokens : Nat) : Except Panic TokenBucket :=
  if b.oneTimeBurst > 0 then do
    return { b with oneTimeBurst := ← U64.add checks .overflow b.oneTimeBurst tokens }
  else do
    let sum ← U64.add checks .overflow b.budget tokens
    return { b with budget := min sum b.size }

end TokenBucket

inductive TokenType where
  | bytes
  | ops
deriving DecidableEq, Repr

structure RateLimiter where
  bandwidth : Option TokenBucket
  ops : Option TokenBucket
  timer : Option Nat
  timerActive : Bool
deriving DecidableEq

namespace RateLimiter

variable (checks : Bool) (now : Nat)

def makeBucket (totalCapacity oneTimeBurst completeRefillTimeMs : Nat) : Except Panic (Option TokenBucket) :=
  if totalCapacity ≠ 0 ∧ completeRefillTimeMs ≠ 0 then do
    return some (← TokenBucket.new checks now totalCapacity oneTimeBurst completeRefillTimeMs)
  else .ok none

/-- The parameters of `make_bucket` for one type of tokens. -/
structure BucketConfig where
  totalCapacity : Nat
  oneTimeBurst : Nat
  completeRefillTimeMs : Nat

def new (bytes ops : BucketConfig) : Except Panic RateLimiter := do
  let bandwidth ← makeBucket checks now bytes.totalCapacity bytes.oneTimeBurst bytes.completeRefillTimeMs
  let ops ← makeBucket checks now ops.totalCapacity ops.oneTimeBurst ops.completeRefillTimeMs
  return { bandwidth := bandwidth, ops := ops, timer := none, timerActive := false }

variable (l : RateLimiter)

def activateTimer (ms : Nat) : RateLimiter :=
  { l with
    timer := if ms = 0 then none else some (now + ms * nanosecInOneMillisec)
    timerActive := true }

def bucket : TokenType → Option TokenBucket
  | .bytes => l.bandwidth
  | .ops => l.ops

def setBucket (b : TokenBucket) : TokenType → RateLimiter
  | .bytes => { l with bandwidth := some b }
  | .ops => { l with ops := some b }

/-- `(ratio * refill_time as f64) as u64`: rounded down, and no more than a `u64` holds. -/
def blockMs (ratio : ℚ) (refillTime : Nat) : Nat := min ⌊ratio * refillTime⌋.toNat U64.max

def consume (tokens : Nat) (tokenType : TokenType) : Except Panic (Bool × RateLimiter) :=
  if l.timerActive then .ok (false, l)
  else
    match l.bucket tokenType with
    | none => .ok (true, l)
    | some b => do
      let (reduction, b') ← b.reduce checks now tokens
      let l := l.setBucket b' tokenType
      match reduction with
      | .failure => return (false, l.activateTimer now refillTimerIntervalMs)
      | .success => return (true, l)
      | .overConsumption ratio => return (true, l.activateTimer now (blockMs ratio b.refillTime))

def manualReplenish (tokens : Nat) (tokenType : TokenType) : Except Panic RateLimiter :=
  match l.bucket tokenType with
  | none => .ok l
  | some b => do return l.setBucket (← b.forceReplenish checks tokens) tokenType

/-- Whether the event was a real one; the timer is read, so an expiry is seen once. -/
def eventHandler : Bool × RateLimiter :=
  match l.timer with
  | none => (false, l)
  | some expiry => if expiry ≤ now then (true, { l with timer := none, timerActive := false }) else (false, l)

end RateLimiter

/-- A new bucket comes from `make_bucket`, and so it has a size. -/
inductive BucketUpdate where
  | none
  | disabled
  | update (tb : TokenBucket) (hsize : 0 < tb.size)

def BucketUpdate.apply (bucket : Option TokenBucket) : BucketUpdate → Option TokenBucket
  | none => bucket
  | disabled => .none
  | update tb _ => some tb

def RateLimiter.updateBuckets (l : RateLimiter) (bytes ops : BucketUpdate) : RateLimiter :=
  { l with bandwidth := bytes.apply l.bandwidth, ops := ops.apply l.ops }

end Kata.Limiter
