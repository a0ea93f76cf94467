import Srh.Domain.BreakerReport
import Srh.Domain.RateLimitRun
import Srh.Lib.Instant

/-! The breaker and the rate limiter with the overflows of their arithmetic: an
operation that panics has no result. Counters that wrap around do not overflow. -/
namespace Srh.Domain
open Srh.Lib

namespace Breaker
section Operations
variable (breaker : Breaker) (inner : Inner) (now : Nat)

def admitChecked : Option (Except Nat BreakerAdmission × Inner) :=
  match inner.state with
  | .closed => some (.ok ⟨⟨inner.generation, false⟩, none⟩, inner)
  | .halfOpen => some (.error (secondsCeil breaker.cooldown), inner)
  | .opened => do
    let elapsed ← inner.openedAt.elim (some 0) (Instant.since now)
    if elapsed ≥ breaker.cooldown then
      let generation := nextGeneration inner.generation
      some (.ok ⟨⟨generation, true⟩, some .probeStarted⟩, { inner with state := .halfOpen, generation := generation })
    else do
      let remaining ← Duration.sub breaker.cooldown elapsed
      some (.error (secondsCeil remaining), inner)

def recordChecked (permit : BreakerPermit) (failed : Bool) : Option (Option BreakerTransition × Inner) :=
  if permit.generation ≠ inner.generation then some (none, inner)
  else if permit.probe then
    if inner.state ≠ .halfOpen then some (none, inner)
    else
      let generation := nextGeneration inner.generation
      if failed then
        some (some .opened, { inner with state := .opened, openedAt := some now, generation := generation })
      else some (some .closed, ⟨.closed, 0, none, generation⟩)
  else if inner.state ≠ .closed then some (none, inner)
  else if failed then do
    let failures ← checked (inner.consecutiveFailures + 1)
    if failures ≥ breaker.failureThreshold then
      some (some .opened, ⟨.opened, failures, some now, nextGeneration inner.generation⟩)
    else some (none, { inner with consecutiveFailures := failures })
  else some (none, { inner with consecutiveFailures := 0 })

def performChecked : Call → Option (Option BreakerTransition × Inner)
  | .tryAdmit => do
    match ← admitChecked breaker inner now with
    | (.ok admission, next) => some (admission.transition, next)
    | (.error _, next) => some (none, next)
  | .record permit failed => recordChecked breaker inner now permit failed
  | .cancel permit => some (none, cancel inner permit)

end Operations

variable {breaker : Breaker} {inner : Inner} {now : Nat}

/-- The remaining cooldown is taken only while some remains. -/
theorem admitChecked_eq (hnow : now < Instant.limit) : admitChecked breaker inner now = some (tryAdmit breaker inner now) := by
  rw [admitChecked, tryAdmit]
  cases inner.state with
  | closed => rfl
  | halfOpen => rfl
  | opened =>
    have helapsed : inner.openedAt.elim (some 0) (Instant.since now) = some (inner.openedAt.elim 0 (now - ·)) := by
      cases inner.openedAt with
      | none => rfl
      | some opened => exact Instant.since_eq hnow opened
    simp only [helapsed, Option.bind_eq_bind, Option.bind_some]
    split
    · rfl
    · next hlt =>
      rw [Duration.sub, if_pos (Nat.le_of_not_le hlt)]
      rfl

/-- The failures are counted up to the threshold only. -/
theorem recordChecked_eq (h : Valid breaker inner) (hthreshold : breaker.failureThreshold < 2 ^ 64) (permit : BreakerPermit)
    (failed : Bool) : recordChecked breaker inner now permit failed = some (record breaker inner now permit failed) := by
  rw [recordChecked, record]
  split
  · rfl
  · split
    · split
      · rfl
      · split <;> rfl
    · split
      · rfl
      · next hclosed =>
        split
        · have hlt := (h.closed (not_not.mp hclosed)).2
          have hfits : checked (inner.consecutiveFailures + 1) = some (inner.consecutiveFailures + 1) := if_pos (by omega)
          simp only [hfits, Option.bind_eq_bind, Option.bind_some]
          split <;> rfl
        · rfl

theorem performChecked_eq (h : Valid breaker inner) (hthreshold : breaker.failureThreshold < 2 ^ 64)
    (hnow : now < Instant.limit) (call : Call) :
    performChecked breaker inner now call = some (perform breaker inner now call) := by
  cases call with
  | tryAdmit =>
    rw [performChecked, perform, admitChecked_eq hnow, Option.bind_eq_bind, Option.bind_some]
    rcases tryAdmit breaker inner now with ⟨_ | _, next⟩ <;> rfl
  | record permit failed => exact recordChecked_eq h hthreshold permit failed
  | cancel permit => rfl

theorem Valid.perform (h : Valid breaker inner) (hpos : 0 < breaker.failureThreshold) (call : Call) :
    Valid breaker (perform breaker inner now call).2 := by
  cases call with
  | tryAdmit =>
    have hnext := h.tryAdmit now
    rw [Breaker.perform]
    generalize Breaker.tryAdmit breaker inner now = admitted at hnext ⊢
    rcases admitted with ⟨_ | _, next⟩ <;> exact hnext
  | record permit failed => exact h.record hpos now permit failed
  | cancel permit => exact h.cancel permit

end Breaker

namespace RateLimit
section Operations
variable {K : Type} (limiter : RateLimiter)

def refillChecked (bucket : Bucket K) (now : Nat) : Option (Bucket K) := do
  let elapsed ← Instant.since now bucket.updated
  some { bucket with
    balance := min (bucket.balance + (elapsed : ℚ) / nanosPerSec * limiter.rate) limiter.capacity
    updated := now }

def isIdleChecked (now : Nat) (bucket : Bucket K) : Option Bool :=
  if 0 ≤ bucket.balance then do
    let idle ← Instant.since now bucket.lastAccess
    some (idleEviction ≤ idle)
  else some false

variable [DecidableEq K]

def touchChecked (buckets : Buckets K) (now : Nat) (key : K) (bucket : Bucket K) (access : Access) :
    Option (Outcome × Buckets K) := do
  let lru := buckets.lru.unlink bucket
  let refilled ← refillChecked limiter bucket now
  let settled := settle limiter { refilled with lastAccess := now } access
  let linked := lru.link settled.2
  some (settled.1, ⟨buckets.entries.insert key linked.2, linked.1⟩)

/-- A first access reads the clock and does no arithmetic on it. -/
def accessChecked (state : State K) (now : Nat) (key : K) (access : Access) : Option (Outcome × State K) :=
  if limiter.rate = 0 then some (.ok (), state)
  else match state.buckets.entries.get key with
    | some bucket => do
      let touched ← touchChecked limiter state.buckets now key bucket access
      some (touched.1, { state with buckets := touched.2 })
    | none =>
      let evicted := if limiter.maxBuckets ≤ state.buckets.entries.len then evictOne state.buckets
        else (state.buckets, false)
      let admitted := admitNew limiter evicted.1 now key access
      some (admitted.1, ⟨admitted.2,
        if evicted.2 then (state.debtForgivenEvictions + 1) % 2 ^ 64 else state.debtForgivenEvictions⟩)

def sweepStepChecked (now : Nat) (acc : Buckets K × List K) (key : K) : Option (Buckets K × List K) :=
  match acc.1.entries.get key with
  | some bucket => do
    let refilled ← refillChecked limiter bucket now
    let swept := leaveDebt acc.1.lru key refilled
    let idle ← isIdleChecked now swept.2
    some (⟨acc.1.entries.insert key swept.2, swept.1⟩, if idle then acc.2 ++ [key] else acc.2)
  | none => some acc

def sweepIdleChecked (state : State K) (now : Nat) : Option (Nat × State K) :=
  if limiter.rate = 0 then some (0, state)
  else do
    let swept ← state.buckets.entries.keys.foldlM (sweepStepChecked limiter now) (state.buckets, [])
    some (swept.2.length, { state with buckets := swept.2.foldl dropIdle swept.1 })

def performChecked (state : State K) (c : Timed K) : Option (Reply × State K) :=
  match c.call with
  | .probe key => (accessChecked limiter state c.now key .probe).map fun r => (.outcome r.1, r.2)
  | .charge key commandCount =>
    (accessChecked limiter state c.now key (.charge commandCount)).map fun r => (.outcome r.1, r.2)
  | .sweepIdle => (sweepIdleChecked limiter state c.now).map fun r => (.count r.1, r.2)
  | .takeDebtForgivenEvictions => let r := takeDebtForgivenEvictions state; some (.count r.1, r.2)

end Operations

section Equations
variable {K : Type} {limiter : RateLimiter} {now : Nat}

private theorem refillChecked_eq (hnow : now < Instant.limit) (bucket : Bucket K) :
    refillChecked limiter bucket now = some (refill limiter bucket now) := by
  rw [refillChecked, Instant.since_eq hnow]
  rfl

private theorem isIdleChecked_eq (hnow : now < Instant.limit) (bucket : Bucket K) :
    isIdleChecked now bucket = some (isIdle now bucket) := by
  rw [isIdleChecked, isIdle, Instant.since_eq hnow]
  split
  · next h =>
    rw [decide_eq_true h]
    rfl
  · next h =>
    rw [decide_eq_false h]
    rfl

variable [DecidableEq K]

private theorem touchChecked_eq (hnow : now < Instant.limit) (buckets : Buckets K) (key : K) (bucket : Bucket K) (access : Access) :
    touchChecked limiter buckets now key bucket access = some (touch limiter buckets now key bucket access) := by
  rw [touchChecked, refillChecked_eq hnow]
  rfl

private theorem accessChecked_eq (hnow : now < Instant.limit) (state : State K) (key : K) (kind : Access) :
    accessChecked limiter state now key kind = some (access limiter state now key kind) := by
  rw [accessChecked, access]
  split
  · rfl
  · cases state.buckets.entries.get key with
    | none => rfl
    | some bucket =>
      dsimp only
      rw [touchChecked_eq hnow]
      rfl

private theorem sweepStepChecked_eq (hnow : now < Instant.limit) (acc : Buckets K × List K) (key : K) :
    sweepStepChecked limiter now acc key = some (sweepStep limiter now acc key) := by
  rw [sweepStepChecked, sweepStep]
  cases acc.1.entries.get key with
  | none => rfl
  | some bucket =>
    dsimp only
    rw [refillChecked_eq hnow, Option.bind_eq_bind, Option.bind_some, isIdleChecked_eq hnow]
    rfl

private theorem sweepIdleChecked_eq (hnow : now < Instant.limit) (state : State K) :
    sweepIdleChecked limiter state now = some (sweepIdle limiter state now) := by
  rw [sweepIdleChecked, sweepIdle]
  split
  · rfl
  · rw [foldlM_some (sweepStepChecked_eq hnow)]
    rfl

/-- The limiter never overflows. -/
theorem performChecked_eq (state : State K) {c : Timed K} (hnow : c.now < Instant.limit) :
    performChecked limiter state c = some (perform limiter state c) := by
  rw [performChecked, perform]
  cases c.call with
  | probe key =>
    dsimp only
    rw [accessChecked_eq hnow]
    rfl
  | charge key commandCount =>
    dsimp only
    rw [accessChecked_eq hnow]
    rfl
  | sweepIdle =>
    dsimp only
    rw [sweepIdleChecked_eq hnow]
    rfl
  | takeDebtForgivenEvictions => rfl

end Equations
end RateLimit
end Srh.Domain
