import Karr.Api.RateLimit

/-!
# The sign-in check

`GET /api/v1/auth/check`: the limiter of the route first, and only behind it the
comparison with the admin token.
-/

set_option autoImplicit false

namespace Karr.Auth

open RateLimit

/-- Of the texts the comparison is made on, the bytes are equal where the texts are. -/
def tokenMatches (presented : Option String) (expected : String) : Bool :=
  match presented with
  | some token => token ≠ "" && expected ≠ "" && token = expected
  | none => false

/-- The capacity and the refill of `AUTH_LIMIT`. -/
def authCapacity : Int := 20

def authRefill : ℚ := 1 / 5

/-- A request: its client and when it came, and the credentials of its bearer header. -/
structure Check where
  call : Call
  presented : Option String
  deriving DecidableEq

inductive Answer where
  | noContent
  | unauthorized
  | rateLimited (wait : ℚ)
  deriving DecidableEq

def answer (expected : String) (presented : Option String) (limiter : Bool × ℚ) : Answer :=
  if ¬ limiter.1 then .rateLimited limiter.2
  else if tokenMatches presented expected then .noContent
  else .unauthorized

def checks (expected : String) (l : RateLimiter) : List Check → List Answer
  | [] => []
  | r :: rs =>
    let limiter := l.tryAcquire r.call.key r.call.created r.call.now
    answer expected r.presented limiter.1 :: checks expected limiter.2 rs

end Karr.Auth
