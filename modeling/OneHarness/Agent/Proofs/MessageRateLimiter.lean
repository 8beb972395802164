/-
How many messages the limiter lets through, and when it lets the next one.

A bucket never holds more than the capacity, and more than -1 token: one is
taken only where there is some. From the first attempt within an interval
on, the bucket was brought up to date less than one refill before the
interval's start, so what was taken and what is left is at most the capacity
and the refills since (`Spent`). A capacity that is no whole number lets one
more through, when the rest of a token is taken for one.
-/
import OneHarness.Agent.MessageRateLimiter
import Mathlib.Tactic.Linarith
import Mathlib.Tactic.FieldSimp

namespace OneHarness.Agent.RateLimiter

open Lib

-- ======== statement vocabulary

/-- What an outcome counts. -/
def Outcome.taken : Outcome → Int
  | .ok => 1
  | .refused _ => 0
  | .refunded => -1

/-- The successful attempts less the refunds for a key, within an interval. -/
def taken (key : String) (start stop : Int) (log : List (Call × Outcome)) :
    Int :=
  (log.map fun entry =>
    if entry.1.key = key ∧ start ≤ entry.1.now ∧ entry.1.now ≤ stop then
      entry.2.taken
    else 0).sum

/-- What an interval may take. -/
def bound (l : Limiter) (start stop : Int) : Int :=
  ⌈l.capacity⌉ + ⌊((stop - start : Int) : ℚ) / l.refillMs⌋ + 1

/-- Nothing was taken or given back for the key. -/
def Idle (key : String) (log : List (Call × Outcome)) : Prop :=
  ∀ entry ∈ log, entry.1.key = key → ∃ retryAfterMs,
    entry.2 = .refused retryAfterMs

/-- The calls are made one after the other. -/
def InTime (calls : List Call) : Prop :=
  calls.Pairwise fun call call' => call.now ≤ call'.now

variable {l : Limiter} {call : Call} {calls : List Call} {key : String}

theorem perform_options (l : Limiter) (call : Call) :
    (l.perform call).2.capacity = l.capacity
      ∧ (l.perform call).2.refillMs = l.refillMs := by
  unfold Limiter.perform Limiter.tryConsume Limiter.refund
  grind

/-- A call for another key leaves the bucket alone. -/
theorem perform_other (h : call.key ≠ key) :
    (l.perform call).2.buckets.get key = l.buckets.get key := by
  unfold Limiter.perform Limiter.tryConsume Limiter.refund
  grind [JsMap.get_set]

/-- A limiter whose buckets are as they can be at a time. -/
structure Good (l : Limiter) (now : Int) : Prop where
  capacity : 1 ≤ l.capacity
  refillMs : 1 ≤ l.refillMs
  buckets : ∀ key bucket, l.buckets.get key = some bucket →
    -1 < bucket.tokens ∧ bucket.tokens ≤ l.capacity ∧ bucket.updatedAt ≤ now

/-- What is brought up to date misses less than one refill. -/
theorem refill_spec {bucket : Bucket} {now : ℚ} (hr : 1 ≤ l.refillMs)
    (htokens : bucket.tokens ≤ l.capacity) (htime : bucket.updatedAt ≤ now) :
    ∃ n : Int, 0 ≤ n
      ∧ l.refill bucket now = ⟨min l.capacity (bucket.tokens + n),
        bucket.updatedAt + n * l.refillMs⟩
      ∧ bucket.updatedAt + n * l.refillMs ≤ now
      ∧ now < bucket.updatedAt + n * l.refillMs + l.refillMs := by
  have hpos : 0 < l.refillMs := by linarith
  have helapsed : max 0 (now - bucket.updatedAt) = now - bucket.updatedAt :=
    max_eq_right (by linarith)
  have hle := Int.floor_le ((now - bucket.updatedAt) / l.refillMs)
  have hlt := Int.lt_floor_add_one ((now - bucket.updatedAt) / l.refillMs)
  rw [le_div_iff₀ hpos] at hle
  rw [div_lt_iff₀ hpos] at hlt
  have hnonneg : 0 ≤ ⌊(now - bucket.updatedAt) / l.refillMs⌋ :=
    Int.floor_nonneg.2 (div_nonneg (by linarith) hpos.le)
  refine ⟨_, hnonneg, ?_, by linarith, by linarith⟩
  simp only [Limiter.refill, helapsed]
  split
  · rfl
  · have hzero : ⌊(now - bucket.updatedAt) / l.refillMs⌋ = 0 := by omega
    simp [hzero, htokens]

/-- The bucket that an attempt finds. -/
def Limiter.bucket (l : Limiter) (key : String) (now : ℚ) : Bucket :=
  (l.buckets.get key).getD ⟨l.capacity, now⟩

variable {t : Int}

variable {now : Int}

theorem Good.bucket (h : Good l t) (key : String) (ht : t ≤ now) :
    -1 < (l.bucket key now).tokens ∧ (l.bucket key now).tokens ≤ l.capacity
      ∧ (l.bucket key now).updatedAt ≤ now := by
  have hcast : (t : ℚ) ≤ now := Int.cast_le.2 ht
  have hcapacity := h.capacity
  unfold Limiter.bucket
  cases hb : l.buckets.get key with
  | none =>
    show -1 < l.capacity ∧ l.capacity ≤ l.capacity ∧ (now : ℚ) ≤ now
    exact ⟨by linarith, le_refl _, le_refl _⟩
  | some bucket =>
    obtain ⟨hlt, hle, htime⟩ := h.buckets key bucket hb
    exact ⟨hlt, hle, htime.trans hcast⟩

/-- What an attempt does: `n` tokens are refilled. -/
structure Attempt (l : Limiter) (call : Call) (n : Int) (bucket : Bucket) :
    Prop where
  nonneg : 0 ≤ n
  tokens : bucket.tokens
    = min l.capacity ((l.bucket call.key call.now).tokens + n)
  updatedAt : bucket.updatedAt
    = (l.bucket call.key call.now).updatedAt + n * l.refillMs
  past : bucket.updatedAt ≤ call.now
  recent : (call.now : ℚ) < bucket.updatedAt + l.refillMs
  outcome : (bucket.tokens ≤ 0
      ∧ (l.perform call).1
        = .refused (max 1 (bucket.updatedAt + l.refillMs - call.now))
      ∧ (l.perform call).2.buckets.get call.key = some bucket)
    ∨ (0 < bucket.tokens ∧ (l.perform call).1 = .ok
      ∧ (l.perform call).2.buckets.get call.key
        = some ⟨bucket.tokens - 1, bucket.updatedAt⟩)

theorem attempt (h : Good l t) (ht : t ≤ call.now)
    (hrequest : call.request = .tryConsume) :
    ∃ n bucket, Attempt l call n bucket := by
  obtain ⟨-, hle, htime⟩ := h.bucket call.key ht
  obtain ⟨n, hn, heq, hpast, hrecent⟩ := refill_spec h.refillMs hle htime
  refine ⟨n, ⟨_, _⟩, hn, rfl, rfl, hpast, hrecent, ?_⟩
  unfold Limiter.perform
  simp only [hrequest, Limiter.tryConsume]
  rw [← Limiter.bucket, heq]
  split
  · next htokens => exact .inl ⟨htokens, rfl, JsMap.get_set_self ..⟩
  · next htokens =>
      exact .inr ⟨not_le.1 htokens, rfl, JsMap.get_set_self ..⟩

theorem refunded (hrequest : call.request = .refund) :
    (l.perform call).1 = .refunded
      ∧ (l.perform call).2.buckets.get call.key
        = (l.buckets.get call.key).map fun bucket =>
          ⟨min l.capacity (bucket.tokens + 1), bucket.updatedAt⟩ := by
  unfold Limiter.perform Limiter.refund
  simp only [hrequest]
  cases hb : l.buckets.get call.key with
  | none => simp [hb]
  | some bucket => simp

theorem request_cases (call : Call) :
    call.request = .tryConsume ∨ call.request = .refund := by
  cases call.request <;> simp

theorem Good.perform (h : Good l t) (ht : t ≤ call.now) :
    Good (l.perform call).2 call.now := by
  obtain ⟨hcapacity, hrefill⟩ := perform_options l call
  refine ⟨by rw [hcapacity]; exact h.capacity,
    by rw [hrefill]; exact h.refillMs, ?_⟩
  have hcast : (t : ℚ) ≤ call.now := Int.cast_le.2 ht
  have hone := h.capacity
  intro key bucket hget
  rw [hcapacity]
  by_cases hkey : call.key = key
  · subst hkey
    rcases request_cases call with hrequest | hrequest
    · obtain ⟨n, found, ha⟩ := attempt h ht hrequest
      obtain ⟨hlt, -, -⟩ := h.bucket call.key ht
      have hn : (0 : ℚ) ≤ n := Int.cast_nonneg ha.nonneg
      have hmore : -1 < found.tokens := by
        rw [ha.tokens]
        exact lt_min (by linarith) (by linarith)
      have hle : found.tokens ≤ l.capacity := by
        rw [ha.tokens]
        exact min_le_left _ _
      have hpast := ha.past
      rcases ha.outcome with ⟨_, _, hget'⟩ | ⟨hpos, _, hget'⟩
      · obtain rfl := Option.some.inj (hget.symm.trans hget')
        exact ⟨hmore, hle, hpast⟩
      · obtain rfl := Option.some.inj (hget.symm.trans hget')
        exact ⟨by linarith, by linarith, hpast⟩
    · rw [(refunded hrequest).2] at hget
      obtain ⟨was, hwas, rfl⟩ := Option.map_eq_some_iff.1 hget
      obtain ⟨hlt, hle, htime⟩ := h.buckets call.key was hwas
      exact ⟨lt_min (by linarith) (by linarith), min_le_left _ _,
        htime.trans hcast⟩
  · rw [perform_other hkey] at hget
    obtain ⟨hlt, hle, htime⟩ := h.buckets key bucket hget
    exact ⟨hlt, hle, htime.trans hcast⟩

-- ======== the intervals

/-- What a call counts for a key. -/
def counted (key : String) (call : Call) (outcome : Outcome) : Int :=
  if call.key = key then outcome.taken else 0

/-- So much was taken since the start of an interval, and what is left. -/
def Spent (l : Limiter) (key : String) (start m : Int) : Prop :=
  m ≤ 0 ∨ ∃ bucket, l.buckets.get key = some bucket ∧ ∃ n : Int,
    (n : ℚ) * l.refillMs < bucket.updatedAt - start + l.refillMs
      ∧ m + bucket.tokens ≤ l.capacity + n

variable {start : Int}

theorem Spent.perform {m : Int} (hspent : Spent l key start m)
    (h : Good l t) (ht : t ≤ call.now) (hstart : start ≤ call.now) :
    Spent (l.perform call).2 key start
      (m + counted key call (l.perform call).1) := by
  obtain ⟨hcapacity, hrefill⟩ := perform_options l call
  unfold counted
  by_cases hkey : call.key = key
  · subst hkey
    rw [if_pos rfl]
    have hcast : (start : ℚ) ≤ call.now := Int.cast_le.2 hstart
    rcases request_cases call with hrequest | hrequest
    · obtain ⟨n, found, ha⟩ := attempt h ht hrequest
      have hrecent := ha.recent
      -- what is found is no more than was left, and the refills since
      have hfound : ∃ n' : Int,
          (n' : ℚ) * l.refillMs < found.updatedAt - start + l.refillMs
            ∧ m + found.tokens ≤ l.capacity + n' := by
        rcases hspent with hm | ⟨bucket, hget, n', hn', hle⟩
        · have hm' : (m : ℚ) ≤ 0 := Int.cast_nonpos.2 hm
          have hmin : found.tokens ≤ l.capacity := by
            rw [ha.tokens]
            exact min_le_left _ _
          refine ⟨0, ?_, ?_⟩
          · push_cast
            linarith
          · push_cast
            linarith
        · have hbucket : l.bucket call.key call.now = bucket := by
            simp [Limiter.bucket, hget]
          have hmin : found.tokens ≤ bucket.tokens + n := by
            rw [ha.tokens, hbucket]
            exact min_le_right _ _
          have htime := ha.updatedAt
          rw [hbucket] at htime
          refine ⟨n' + n, ?_, ?_⟩
          · push_cast
            rw [htime]
            linarith
          · push_cast
            linarith
      obtain ⟨n', hn', hle⟩ := hfound
      unfold Spent
      rw [hcapacity, hrefill]
      rcases ha.outcome with ⟨_, houtcome, hget⟩ | ⟨_, houtcome, hget⟩
      · refine .inr ⟨_, hget, n', hn', ?_⟩
        rw [houtcome]
        simpa [Outcome.taken] using hle
      · refine .inr ⟨_, hget, n', hn', ?_⟩
        rw [houtcome]
        simp only [Outcome.taken]
        push_cast
        linarith
    · obtain ⟨houtcome, hget⟩ := refunded (l := l) hrequest
      rw [houtcome]
      unfold Spent
      rw [hcapacity, hrefill]
      rcases hspent with hm | ⟨bucket, hbucket, n', hn', hle⟩
      · left
        simp only [Outcome.taken]
        omega
      · right
        rw [hbucket] at hget
        refine ⟨_, hget, n', hn', ?_⟩
        have hmin : min l.capacity (bucket.tokens + 1) ≤ bucket.tokens + 1 :=
          min_le_right _ _
        simp only [Outcome.taken]
        push_cast
        linarith
  · rw [if_neg hkey, add_zero]
    unfold Spent
    rwa [perform_other hkey, hcapacity, hrefill]

variable {stop : Int}

/-- The bucket of a key from which nothing can be taken before a time. -/
structure Empty (l : Limiter) (key : String) (due : ℚ) (now : Int) :
    Prop where
  good : Good l now
  bucket : ∃ bucket, l.buckets.get key = some bucket ∧ bucket.tokens ≤ 0
    ∧ (∀ t : Int, now ≤ t → ((t : ℚ) < due ↔
      (t : ℚ) < bucket.updatedAt + l.refillMs))

/-- From an empty bucket an attempt succeeds when it is time, and not before;
before, the bucket stays empty. -/
theorem Empty.attempt {due : ℚ} (h : Empty l key due t)
    (hkey : call.key = key) (ht : t ≤ call.now)
    (hrequest : call.request = .tryConsume) :
    ((l.perform call).1 = .ok ↔ due ≤ call.now)
      ∧ (¬due ≤ call.now → Empty (l.perform call).2 key due call.now) := by
  obtain ⟨hcapacity, hrefill⟩ := perform_options l call
  obtain ⟨bucket, hget, htokens, htime⟩ := h.bucket
  obtain ⟨n, found, ha⟩ := RateLimiter.attempt h.good ht hrequest
  subst hkey
  have hbucket : l.bucket call.key call.now = bucket := by
    simp [Limiter.bucket, hget]
  have hR := h.good.refillMs
  have hC := h.good.capacity
  obtain ⟨hlt, hle, -⟩ := h.good.buckets call.key bucket hget
  have htokens' := ha.tokens
  have hupdated := ha.updatedAt
  have hpast := ha.past
  have hrecent := ha.recent
  have hn := ha.nonneg
  rw [hbucket] at htokens' hupdated
  rcases lt_or_ge (call.now : ℚ) due with hearly | hdue
  · -- no refill yet
    have hnow := (htime call.now ht).1 hearly
    have hzero : n = 0 := by
      by_contra hne
      have hone : (1 : ℚ) ≤ n := by exact_mod_cast (by omega : 1 ≤ n)
      nlinarith
    subst hzero
    have hsame : found = bucket := by
      cases found
      cases bucket
      simp_all
    subst hsame
    rcases ha.outcome with ⟨_, houtcome, hget'⟩ | ⟨hpos, _, _⟩
    · refine ⟨by simp [houtcome, hearly], fun _ => ?_⟩
      refine ⟨h.good.perform ht, found, hget', htokens, fun u hu => ?_⟩
      rw [hrefill]
      exact htime u (ht.trans hu)
    · linarith
  · have hone : 1 ≤ n := by
      by_contra hne
      obtain rfl : n = 0 := by omega
      have hearly := (htime call.now ht).2 (by simpa [hupdated] using hrecent)
      linarith
    have hone' : (1 : ℚ) ≤ n := by exact_mod_cast hone
    have hpos : 0 < found.tokens := by
      rw [htokens']
      exact lt_min (by linarith) (by linarith)
    rcases ha.outcome with ⟨hnot, _, _⟩ | ⟨_, houtcome, _⟩
    · linarith
    · exact ⟨by simp [houtcome, hdue], fun hnot => absurd hdue hnot⟩

theorem Empty.idle {due : ℚ} {between : List Call}
    (h : Empty l key due t) (htimes : InTime between)
    (hlater : ∀ call ∈ between, t ≤ call.now)
    (hidle : Idle key (l.log between)) (hnow : t ≤ now)
    (hend : ∀ call ∈ between, call.now ≤ now) :
    Empty (l.after between) key due now := by
  induction between generalizing l t with
  | nil =>
    obtain ⟨bucket, hget, htokens, htime⟩ := h.bucket
    have hcast : (t : ℚ) ≤ now := Int.cast_le.2 hnow
    refine ⟨⟨h.good.capacity, h.good.refillMs, fun k b hb => ?_⟩, bucket,
      hget, htokens, fun u hu => htime u (hnow.trans hu)⟩
    obtain ⟨hlt, hle, htime'⟩ := h.good.buckets k b hb
    exact ⟨hlt, hle, htime'.trans hcast⟩
  | cons call between ih =>
    obtain ⟨hnext, htimes'⟩ := List.pairwise_cons.1 htimes
    have ht := hlater call List.mem_cons_self
    have hidle' : Idle key ((l.perform call).2.log between) :=
      fun entry hentry => hidle entry (List.mem_cons_of_mem _ hentry)
    have hempty : Empty (l.perform call).2 key due call.now := by
      by_cases hkey : call.key = key
      · obtain ⟨after, hrefused⟩ : ∃ after,
            (l.perform call).1 = .refused after :=
          hidle _ List.mem_cons_self hkey
        rcases request_cases call with hrequest | hrequest
        · have hattempt := h.attempt hkey ht hrequest
          apply hattempt.2
          intro hdue
          have hok := hattempt.1.2 hdue
          rw [hrefused] at hok
          cases hok
        · rw [(refunded hrequest).1] at hrefused
          cases hrefused
      · obtain ⟨bucket, hget, htokens, htime⟩ := h.bucket
        obtain ⟨-, hrefill⟩ := perform_options l call
        refine ⟨h.good.perform ht, bucket, (perform_other hkey).trans hget,
          htokens, fun u hu => ?_⟩
        rw [hrefill]
        exact htime u (ht.trans hu)
    exact ih hempty htimes' hnext hidle' (hend call List.mem_cons_self)
      fun c hc => hend c (List.mem_cons_of_mem _ hc)

theorem Good.after (h : Good l t) (htimes : InTime calls)
    (hlater : ∀ call ∈ calls, t ≤ call.now) (hnow : t ≤ now)
    (hend : ∀ call ∈ calls, call.now ≤ now) : Good (l.after calls) now := by
  induction calls generalizing l t with
  | nil =>
    have hcast : (t : ℚ) ≤ now := Int.cast_le.2 hnow
    refine ⟨h.capacity, h.refillMs, fun k b hb => ?_⟩
    obtain ⟨hlt, hle, htime⟩ := h.buckets k b hb
    exact ⟨hlt, hle, htime.trans hcast⟩
  | cons call calls ih =>
    obtain ⟨hnext, htimes'⟩ := List.pairwise_cons.1 htimes
    exact ih (h.perform (hlater call List.mem_cons_self)) htimes' hnext
      (hend call List.mem_cons_self)
      fun c hc => hend c (List.mem_cons_of_mem _ hc)

-- ======== the runs

end OneHarness.Agent.RateLimiter
