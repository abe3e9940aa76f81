import Mathlib.Algebra.Order.Ring.Rat
import Pgman.Construction.Net.Address
import Pgman.Framework.Table
import Mathlib.Data.Char
import Mathlib.Data.List.Lex

/-!
# The limiter of session starts

`rate_limit.go`: a token bucket per user.  Tokens and seconds are rationals where the source has
floats.  A call reads the clock once for a bucket it makes and once to refill, so it comes with two
instants, in seconds.
-/

namespace Pgman

open Net (Text)

structure RlBucket where
  tokens : ℚ
  lastRefill : ℚ

structure RateLimiter where
  tokensPerSec : ℚ
  burst : ℚ
  buckets : Table Text RlBucket

/-- `NewRateLimiter`; `none` is the nil limiter. -/
def newRateLimiter (ratePerSec burst : ℤ) : Option RateLimiter :=
  if ratePerSec ≤ 0 ∨ burst ≤ 0 then none else some ⟨ratePerSec, burst, .empty⟩

/-- A call of `Allow`: `opened` is read if there is no bucket yet, `now` to refill it. -/
structure AllowCall where
  key : Text
  opened : ℚ
  now : ℚ
  deriving DecidableEq

namespace RlBucket

/-- Refill a bucket, by what has come since and no higher than it holds. -/
def refill (rate burst now : ℚ) (b : RlBucket) : RlBucket :=
  let elapsed := now - b.lastRefill
  if 0 < elapsed then
    ⟨if burst < b.tokens + elapsed * rate then burst else b.tokens + elapsed * rate, now⟩
  else b

/-- Take a token if there is one. -/
def take (b : RlBucket) : Bool × RlBucket :=
  if b.tokens < 1 then (false, b) else (true, { b with tokens := b.tokens - 1 })

end RlBucket

namespace RateLimiter

def bucketFor (r : RateLimiter) (c : AllowCall) : RlBucket :=
  (r.buckets.get c.key).getD ⟨r.burst, c.opened⟩

/-- `Allow` on a limiter that is not nil. -/
def allow (r : RateLimiter) (c : AllowCall) : Bool × RateLimiter :=
  let x := ((r.bucketFor c).refill r.tokensPerSec r.burst c.now).take
  (x.1, { r with buckets := r.buckets.set c.key x.2 })

/-- `Allow`: a nil limiter lets everyone pass. -/
def allowNilSafe (r : Option RateLimiter) (c : AllowCall) : Bool × Option RateLimiter :=
  match r with
  | none => (true, none)
  | some r => ((r.allow c).1, some (r.allow c).2)

end RateLimiter

end Pgman
