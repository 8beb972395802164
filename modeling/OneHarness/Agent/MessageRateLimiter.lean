/-
The rate limiter for the messages between agents.

Numbers are rationals; the clock of a call is a whole number of
milliseconds. A call of `refund` is told when it was made as well, which the
code does not ask.
-/
import OneHarness.Lib.JsMap
import Mathlib.Data.Rat.Floor

namespace OneHarness.Agent.RateLimiter

open Lib

def DEFAULT_AGENT_MESSAGE_RATE_LIMIT_CAPACITY : ℚ := 3

def DEFAULT_AGENT_MESSAGE_RATE_LIMIT_REFILL_MS : ℚ := 1000

structure Bucket where
  tokens : ℚ
  updatedAt : ℚ

structure Limiter where
  capacity : ℚ
  refillMs : ℚ
  buckets : JsMap String Bucket

inductive Outcome where
  | ok
  | refused (retryAfterMs : ℚ)
  | refunded
  deriving DecidableEq

inductive Request where
  | tryConsume
  | refund
  deriving DecidableEq

structure Call where
  now : Int
  key : String
  request : Request
  deriving DecidableEq

namespace Limiter

def new (capacity refillMs : Option ℚ) : Limiter :=
  ⟨capacity.getD DEFAULT_AGENT_MESSAGE_RATE_LIMIT_CAPACITY,
    refillMs.getD DEFAULT_AGENT_MESSAGE_RATE_LIMIT_REFILL_MS, []⟩

/-- What the time that went by brings. -/
def refill (l : Limiter) (bucket : Bucket) (now : ℚ) : Bucket :=
  let elapsed := max 0 (now - bucket.updatedAt)
  let refilledTokens := ⌊elapsed / l.refillMs⌋
  if 0 < refilledTokens then
    ⟨min l.capacity (bucket.tokens + refilledTokens),
      bucket.updatedAt + refilledTokens * l.refillMs⟩
  else bucket

def tryConsume (l : Limiter) (key : String) (now : ℚ) : Outcome × Limiter :=
  let bucket := l.refill ((l.buckets.get key).getD ⟨l.capacity, now⟩) now
  if bucket.tokens ≤ 0 then
    (.refused (max 1 (bucket.updatedAt + l.refillMs - now)),
      { l with buckets := l.buckets.set key bucket })
  else
    (.ok, { l with
      buckets := l.buckets.set key ⟨bucket.tokens - 1, bucket.updatedAt⟩ })

def refund (l : Limiter) (key : String) : Limiter :=
  match l.buckets.get key with
  | none => l
  | some bucket =>
    { l with
      buckets := l.buckets.set key
        ⟨min l.capacity (bucket.tokens + 1), bucket.updatedAt⟩ }

def perform (l : Limiter) (call : Call) : Outcome × Limiter :=
  match call.request with
  | .tryConsume => l.tryConsume call.key call.now
  | .refund => (.refunded, l.refund call.key)

/-- The calls, each with what it returned. -/
def log (l : Limiter) : List Call → List (Call × Outcome)
  | [] => []
  | call :: calls =>
    (call, (l.perform call).1) :: (l.perform call).2.log calls

/-- The limiter after the calls. -/
def after (l : Limiter) (calls : List Call) : Limiter :=
  calls.foldl (fun l call => (l.perform call).2) l

end Limiter

end OneHarness.Agent.RateLimiter
