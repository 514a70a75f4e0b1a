import Mathlib.Algebra.Order.Ring.Rat
import Blinex.ForStd.PMap

/-!
# `management/internal/grpcserver/ratelimit.go`

Token buckets, one for each source address. Times are nanoseconds; tokens are exact
rationals where the code has `float64`.
-/

namespace Blinex.Native

/-- `tokenBucket`. -/
structure TokenBucket where
  tokens : ℚ
  lastTime : Int
deriving DecidableEq

/-- `rlCapacity`. -/
def rlCapacity : ℚ := 5

/-- `rlRate`, in tokens per second. -/
def rlRate : ℚ := 5 / 60

/-- `Duration.Seconds`. -/
def seconds (d : Int) : ℚ := (d : ℚ) / 1000000000

/-- `rateLimiter`. -/
structure RateLimiter where
  buckets : PMap String TokenBucket := PMap.empty
  cleaned : Int

/-- `newRateLimiter`, at `now`. -/
def newRateLimiter (now : Int) : RateLimiter := { cleaned := now }

namespace RateLimiter

/-- The buckets that survive the eviction of idle ones. -/
def evictIdle (r : RateLimiter) (now : Int) : RateLimiter :=
  if 2 * 60 * 1000000000 < now - r.cleaned then
    { buckets := fun k => (r.buckets k).filter fun b => ¬ 5 * 60 * 1000000000 < now - b.lastTime
      cleaned := now }
  else r

/-- The bucket after the refill. -/
def refill (b : TokenBucket) (now : Int) : TokenBucket :=
  let tokens := b.tokens + seconds (now - b.lastTime) * rlRate
  { tokens := if rlCapacity < tokens then rlCapacity else tokens, lastTime := now }

/-- `Allow`, at `now`. -/
def allow (r : RateLimiter) (key : String) (now : Int) : Bool × RateLimiter :=
  let r := r.evictIdle now
  match r.buckets key with
  | none =>
    let b := { tokens := rlCapacity - 1, lastTime := now }
    (true, { r with buckets := r.buckets.set key b })
  | some b =>
    let b := refill b now
    if b.tokens < 1 then (false, { r with buckets := r.buckets.set key b })
    else (true, { r with buckets := r.buckets.set key { b with tokens := b.tokens - 1 } })

end RateLimiter

end Blinex.Native
