/-
What a session decides about a failed response of a provider: whether it is
tried again, and after how long.

# Responses

A response is what the decisions read of an assistant message. What they find
in its error text (an overflow, a reset time) is taken as data.

Numbers are exact, and where `Math.random` is asked its answer is given.
-/
import Mathlib.Algebra.Order.Ring.Rat
import Mathlib.Tactic.Common

namespace OneHarness.Session.Retries

-- ======== responses

inductive StopReason where
  | stop
  | length
  | toolUse
  | error
  | aborted
deriving DecidableEq

/-- `M` are the models. -/
structure Response (M : Type) where
  model : M
  stopReason : StopReason
  /-- There is an error message, not empty. -/
  hasError : Bool
  /-- The error message is one of an overflow. -/
  overflowText : Bool
  kind : Option String
  status : Option Rat
  retryAfterMs : Option Rat
  /-- The recovery window that the error message names. -/
  resetMs : Option Rat
  lifecycleFailure : Bool
  fauxQueueExhausted : Bool
  /-- `usage.input + usage.cacheRead`. -/
  inputTokens : Rat
  outputTokens : Rat
  /-- Not younger than the latest compaction. -/
  beforeCompaction : Bool

variable {M : Type} (message : Response M)

def Response.failed : Bool := message.stopReason = .error && message.hasError

/-- Said in the error message, or silently: the input does not fit the window,
or fills it and leaves no room for output. -/
def isContextOverflow (contextWindow : Rat) : Bool :=
  (message.failed && message.overflowText)
    || (contextWindow ≠ 0 && message.stopReason = .stop
      && contextWindow < message.inputTokens)
    || (contextWindow ≠ 0 && message.stopReason = .length
      && message.outputTokens = 0
      && contextWindow * (99 / 100) ≤ message.inputTokens)

-- ======== decisions

/-- Deterministic rejections never retry; auth gets one retry. -/
def isPermanentProviderFailureKind (kind : Option String)
    (retriesPerformed : Nat) (status : Option Rat) : Bool :=
  if kind = some "invalid_request" ∧ status = some 404 then false
  else if kind = some "invalid_request" ∨ kind = some "refusal"
      ∨ kind = some "permission" then true
  else 0 < retriesPerformed && kind = some "auth"

inductive ProviderWaitClass where
  | quota
  | transient
  | permanent
deriving DecidableEq

def providerWaitClass (kind : Option String) (status : Option Rat) :
    ProviderWaitClass :=
  if kind = some "rate_limit" ∨ kind = some "quota" then .quota
  else if kind = some "server_error" ∨ kind = some "overloaded"
      ∨ kind = some "unknown" then .transient
  else if kind = some "invalid_request" ∧ status = some 404 then .transient
  else .permanent

structure RetrySettings where
  enabled : Bool
  maxRetries : Rat
  baseDelayMs : Rat
  /-- Of `getProviderRetrySettings`; 0 disables the cap. -/
  maxRetryDelayMs : Rat

/-- The settings bound each number by 0. -/
structure ProviderWaitPolicy where
  enabled : Bool
  baseDelayMs : Rat
  maxDelayMs : Rat
  maxAttempts : Rat
  maxWaitMs : Rat
  nonneg : 0 ≤ baseDelayMs ∧ 0 ≤ maxDelayMs ∧ 0 ≤ maxAttempts ∧ 0 ≤ maxWaitMs

/-- Node caps timers at 2^31-1 ms. -/
def maxTimerDelayMs : Rat := 2147483647

inductive ProviderRetryDelay where
  | wait (delayMs : Rat)
  | exceedsCap (retryAfterMs : Rat)

def providerRetryDelay (attempt : Nat) (retryAfterMs : Option Rat)
    (settings : RetrySettings) : ProviderRetryDelay :=
  let delay := min (max (settings.baseDelayMs * 2 ^ (attempt - 1))
    (retryAfterMs.getD 0)) maxTimerDelayMs
  match retryAfterMs with
  | some retryAfter =>
    if 0 < settings.maxRetryDelayMs ∧ settings.maxRetryDelayMs < retryAfter then
      .exceedsCap retryAfter
    else .wait delay
  | none => .wait delay

def providerWaitPingDelay (attempt : Nat) (policy : ProviderWaitPolicy) : Rat :=
  min (min (policy.baseDelayMs * 2 ^ (attempt - 1)) policy.maxDelayMs)
    maxTimerDelayMs

/-- `Math.round(delayMs * factor)`, for a factor between 3/4 and 5/4. -/
def providerWaitJitter (delayMs random : Rat) : Rat :=
  let factor := 3 / 4 + 1 / 2 * max 0 (min 1 random)
  max 0 ((delayMs * factor + 1 / 2).floor : Rat)

inductive WaitAbortReason where
  | attempts
  | duration
  | resetTooFar
deriving DecidableEq

inductive ProviderWaitDecision where
  | wait (delayMs : Rat)
  | abort (reason : WaitAbortReason)

def providerWaitDecision (attempt : Nat) (elapsedMs : Rat)
    (resetMs : Option Rat) (policy : ProviderWaitPolicy) (random : Rat) :
    ProviderWaitDecision :=
  let remainingMs := policy.maxWaitMs - elapsedMs
  if policy.maxAttempts < attempt then .abort .attempts
  else if remainingMs ≤ 0 then .abort .duration
  else
    match resetMs with
    | some reset =>
      if remainingMs < reset then .abort .resetTooFar
      else .wait (min (max reset 0) maxTimerDelayMs)
    | none =>
      .wait (min (providerWaitJitter (providerWaitPingDelay attempt policy)
        random) remainingMs)

end OneHarness.Session.Retries
