import Srh.Lib.Duration
import Srh.Lib.FiniteMap
import Srh.Lib.TokenBucket
import Mathlib.Data.Rat.Floor

/-! The per-credential token bucket of domain/rate_limit.rs. Balances are exact
rationals, an Instant is a nanosecond count, and keys are of any type with
decidable equality. -/
namespace Srh.Domain.RateLimit
open Srh.Lib

def maxBuckets : Nat := 100000

def idleEviction : Nat := Duration.fromSecs 900

structure RateLimitExceeded where
  retryAfterSecs : Nat
  deriving DecidableEq, Repr

structure Bucket (K : Type) where
  balance : ℚ
  updated : Nat
  lastAccess : Nat
  order : Nat
  key : K
  indebted : Bool

/-- Recency indices by access order, split by the flag recorded when linking. -/
structure Lru (K : Type) where
  credit : FiniteMap Nat K
  debt : FiniteMap Nat K
  nextOrder : Nat

structure Buckets (K : Type) where
  entries : FiniteMap K (Bucket K)
  lru : Lru K

inductive Access where
  | probe
  | charge (commandCount : Nat)
  deriving DecidableEq, Repr

/-- The immutable fields of RateLimiter, as with_max_buckets leaves them. -/
structure RateLimiter where
  rate : Nat
  maxBuckets : Nat
  rate_lt : rate < 2 ^ 64
  maxBuckets_pos : 0 < maxBuckets

/-- The mutable fields: the guarded maps and the forgiveness counter. -/
structure State (K : Type) where
  buckets : Buckets K
  debtForgivenEvictions : Nat

abbrev Outcome := Except RateLimitExceeded Unit

namespace Lru
variable {K : Type}

def empty : Lru K := ⟨.empty, .empty, 0⟩

def index (lru : Lru K) : Bool → FiniteMap Nat K
  | true => lru.debt
  | false => lru.credit

def unlink (lru : Lru K) (bucket : Bucket K) : Lru K :=
  if bucket.indebted then { lru with debt := lru.debt.remove bucket.order }
  else { lru with credit := lru.credit.remove bucket.order }

def link (lru : Lru K) (bucket : Bucket K) : Lru K × Bucket K :=
  let linked := { bucket with order := lru.nextOrder, indebted := decide (bucket.balance < 0) }
  let next := { lru with nextOrder := (lru.nextOrder + 1) % 2 ^ 64 }
  if linked.indebted then ({ next with debt := next.debt.insert linked.order linked.key }, linked)
  else ({ next with credit := next.credit.insert linked.order linked.key }, linked)

end Lru

def State.empty {K : Type} : State K := ⟨⟨.empty, .empty⟩, 0⟩

namespace RateLimiter
variable (limiter : RateLimiter)

def withMaxBuckets (rate : Nat) (h : rate < 2 ^ 64) (maxBuckets : Nat) : RateLimiter :=
  ⟨rate, max maxBuckets 1, h, by omega⟩

def new (rate : Nat) (h : rate < 2 ^ 64) : RateLimiter := withMaxBuckets rate h RateLimit.maxBuckets

/-- A saturating doubling of the rate. -/
def capacity : ℚ := (min (limiter.rate * 2) (2 ^ 64 - 1) : Nat)

def exceeded (balance : ℚ) : RateLimitExceeded :=
  let deficit := max (-balance) 0
  ⟨min (max ⌈deficit / limiter.rate⌉ 1).toNat (2 ^ 64 - 1)⟩

end RateLimiter

def elapsedSecs (now earlier : Nat) : ℚ := (now - earlier : Nat) / nanosPerSec

section Operations
variable {K : Type} (limiter : RateLimiter)

def refill (bucket : Bucket K) (now : Nat) : Bucket K :=
  { bucket with
    balance := min (bucket.balance + elapsedSecs now bucket.updated * limiter.rate) limiter.capacity
    updated := now }

def settle (bucket : Bucket K) (access : Access) : Outcome × Bucket K :=
  if bucket.balance ≤ 0 then (.error (limiter.exceeded bucket.balance), bucket)
  else match access with
    | .charge commandCount => (.ok (), { bucket with balance := bucket.balance - (max commandCount 1 : Nat) })
    | .probe => (.ok (), bucket)

variable [DecidableEq K]

def evictOne (buckets : Buckets K) : Buckets K × Bool :=
  match buckets.lru.credit.popFirst with
  | (some (_, key), credit) =>
    (⟨buckets.entries.remove key, { buckets.lru with credit := credit }⟩, false)
  | (none, _) =>
    match buckets.lru.debt.popFirst with
    | (some (_, key), debt) => (⟨buckets.entries.remove key, { buckets.lru with debt := debt }⟩, true)
    | (none, _) => (buckets, false)

/-- An access to a key that has a bucket: unlink, refill, settle, relink. -/
def touch (buckets : Buckets K) (now : Nat) (key : K) (bucket : Bucket K) (access : Access) :
    Outcome × Buckets K :=
  let lru := buckets.lru.unlink bucket
  let settled := settle limiter { refill limiter bucket now with lastAccess := now } access
  let linked := lru.link settled.2
  (settled.1, ⟨buckets.entries.insert key linked.2, linked.1⟩)

/-- The first access of a key: its bucket starts at capacity and in no index. -/
def admitNew (buckets : Buckets K) (now : Nat) (key : K) (access : Access) : Outcome × Buckets K :=
  let settled := settle limiter ⟨limiter.capacity, now, now, 0, key, false⟩ access
  let linked := buckets.lru.link settled.2
  (settled.1, ⟨buckets.entries.insert key linked.2, linked.1⟩)

/-- The clock is read by the caller, before the lock is taken. -/
def access (state : State K) (now : Nat) (key : K) (access : Access) : Outcome × State K :=
  if limiter.rate = 0 then (.ok (), state)
  else match state.buckets.entries.get key with
    | some bucket =>
      let touched := touch limiter state.buckets now key bucket access
      (touched.1, { state with buckets := touched.2 })
    | none =>
      let evicted := if limiter.maxBuckets ≤ state.buckets.entries.len then evictOne state.buckets
        else (state.buckets, false)
      let admitted := admitNew limiter evicted.1 now key access
      (admitted.1, ⟨admitted.2,
        if evicted.2 then (state.debtForgivenEvictions + 1) % 2 ^ 64 else state.debtForgivenEvictions⟩)

def probe (state : State K) (now : Nat) (key : K) : Outcome × State K :=
  access limiter state now key .probe

def charge (state : State K) (now : Nat) (key : K) (commandCount : Nat) : Outcome × State K :=
  access limiter state now key (.charge commandCount)

/-- The limiter takes one for nothing. -/
theorem charge_max (state : State K) (now : Nat) (key : K) (commandCount : Nat) :
    charge limiter state now key (max commandCount 1) = charge limiter state now key commandCount := by
  have hsettle (bucket : Bucket K) :
      settle limiter bucket (.charge (max commandCount 1)) = settle limiter bucket (.charge commandCount) := by
    rw [settle, settle, max_assoc, max_self]
  simp only [charge, access, touch, admitNew, hsettle]

def isIdle (now : Nat) (bucket : Bucket K) : Bool :=
  decide (0 ≤ bucket.balance) && decide (idleEviction ≤ now - bucket.lastAccess)

/-- A refilled bucket that waited out its debt moves to the credit index. -/
def leaveDebt (lru : Lru K) (key : K) (bucket : Bucket K) : Lru K × Bucket K :=
  if bucket.indebted ∧ 0 ≤ bucket.balance then
    ({ lru with debt := lru.debt.remove bucket.order, credit := lru.credit.insert bucket.order key },
      { bucket with indebted := false })
  else (lru, bucket)

/-- One iteration of the first loop of sweep_idle, collecting the idle keys. -/
def sweepStep (now : Nat) (acc : Buckets K × List K) (key : K) : Buckets K × List K :=
  match acc.1.entries.get key with
  | some bucket =>
    let swept := leaveDebt acc.1.lru key (refill limiter bucket now)
    (⟨acc.1.entries.insert key swept.2, swept.1⟩,
      if isIdle now swept.2 then acc.2 ++ [key] else acc.2)
  | none => acc

/-- The second loop: drop each idle entry and its index entry. -/
def dropIdle (buckets : Buckets K) (key : K) : Buckets K :=
  match buckets.entries.get key with
  | some bucket => ⟨buckets.entries.remove key, buckets.lru.unlink bucket⟩
  | none => buckets

def sweepIdle (state : State K) (now : Nat) : Nat × State K :=
  if limiter.rate = 0 then (0, state)
  else
    let swept := state.buckets.entries.keys.foldl (sweepStep limiter now) (state.buckets, [])
    (swept.2.length, { state with buckets := swept.2.foldl dropIdle swept.1 })

def bucketCount (state : State K) : Nat := state.buckets.entries.len

def takeDebtForgivenEvictions (state : State K) : Nat × State K :=
  (state.debtForgivenEvictions, { state with debtForgivenEvictions := 0 })

end Operations
end Srh.Domain.RateLimit
