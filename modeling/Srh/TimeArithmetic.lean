import Srh.Adapters.CacheHistory
import Srh.Adapters.Revocation
import Srh.ConfigFormat
import Srh.Domain.CheckedTime

/-! The components that compute with the clock, set up from a configuration and run
with the overflows of their arithmetic. -/
namespace Srh
open Srh.Lib Srh.Domain Srh.Adapters

section Cache
variable {δ : Type} [LinearOrder δ] (cache : IntrospectionCache) (state : IntrospectionEntries δ) (now : Nat)

/-- An insertion panics when the answer would expire after the last instant. -/
def insertChecked (digest : δ) (active : Bool) : Option (IntrospectionEntries δ) := do
  let state := match state.entries.get digest with
    | some previous => state.forget digest previous
    | none => if cache.maxEntries ≤ state.entries.len then state.evictOldest else state
  let expiresAt ← Instant.add now (Duration.fromSecs cache.ttlSecs)
  some (state.file digest active expiresAt now)

def cacheChecked : CacheCall δ → Option (IntrospectionEntries δ)
  | .get digest => some (state.get now digest).2
  | .insert digest active => insertChecked cache state now digest active
  | .sweep => some (state.sweep now).2

/-- Without an overflow the insertion is that of the cache. -/
theorem insertChecked_eq (digest : δ) (active : Bool) (h : now + Duration.fromSecs cache.ttlSecs < Instant.limit) :
    insertChecked cache state now digest active = some (state.insert cache now digest active) := by
  rw [insertChecked, Instant.add, if_pos h]
  rfl

private theorem insertChecked_some_iff (digest : δ) (active : Bool) :
    (∃ next, insertChecked cache state now digest active = some next) ↔
      now + Duration.fromSecs cache.ttlSecs < Instant.limit := by
  by_cases h : now + Duration.fromSecs cache.ttlSecs < Instant.limit
  · exact iff_of_true ⟨_, insertChecked_eq cache state now digest active h⟩ h
  · refine iff_of_false ?_ h
    rintro ⟨next, hnext⟩
    rw [insertChecked, Instant.add, if_neg h] at hnext
    cases hnext

end Cache

/-- The integers that are counted with are those of the machine types. -/
structure Config.InRange (config : Config) : Prop where
  rate : config.server.rateLimit.perTokenCommandsPerSec < 2 ^ 64
  failureThreshold : ∀ name pool, config.pools.get name = some pool → pool.breaker.failureThreshold < 2 ^ 64

def PoolConfig.newBreaker (pool : PoolConfig) : Breaker :=
  ⟨pool.breaker.failureThreshold, Duration.fromMillis pool.breaker.cooldownMs⟩

structure Components where
  breakers : String → Breaker.Inner
  limiter : RateLimit.State String
  cache : IntrospectionEntries Digest

def Components.new : Components := ⟨fun _ => .new, .empty, .empty⟩

inductive ComponentCall where
  | breaker (pool : String) (call : Breaker.Call)
  | limiter (call : RateLimit.Call String)
  | cache (call : CacheCall Digest)

structure Reading where
  now : Nat
  call : ComponentCall

section Runs
variable (config : Config) (h : config.InRange) (s : Components) (now : Nat)

/-- A configuration without the pool has no such breaker to call. -/
def Components.callBreaker (name : String) (call : Breaker.Call) : Option Components :=
  match config.pools.get name with
  | none => some s
  | some pool =>
    (Breaker.performChecked pool.newBreaker (s.breakers name) now call).map fun performed =>
      { s with breakers := Function.update s.breakers name performed.2 }

def Components.callLimiter (call : RateLimit.Call String) : Option Components :=
  let limiter := RateLimit.RateLimiter.new config.server.rateLimit.perTokenCommandsPerSec h.rate
  (RateLimit.performChecked limiter s.limiter ⟨now, call⟩).map fun performed => { s with limiter := performed.2 }

/-- A configuration without JWT authentication has no cache to call. -/
def Components.callCache (call : CacheCall Digest) : Option Components :=
  match config.auth.jwt with
  | none => some s
  | some jwt => (cacheChecked (.new jwt.introspection.cacheSecs) s.cache now call).map fun cache => { s with cache := cache }

def Components.step (reading : Reading) : Option Components :=
  match reading.call with
  | .breaker name call => s.callBreaker config reading.now name call
  | .limiter call => s.callLimiter config h reading.now call
  | .cache call => s.callCache config reading.now call

def components : Machine Components Reading := ⟨Components.step config h⟩

def ExpiresInTime (reading : Reading) : Prop :=
  ∀ digest active jwt, reading.call = .cache (.insert digest active) → config.auth.jwt = some jwt →
    reading.now + Duration.fromSecs jwt.introspection.cacheSecs < Instant.limit

def Components.Valid : Prop :=
  ∀ name pool, config.pools.get name = some pool → Breaker.Valid pool.newBreaker (s.breakers name)

end Runs

section Totality
variable {config : Config} {h : config.InRange} {s t : Components} {now : Nat} {reading : Reading}

/-- No call of a breaker overflows, and its breaker stays valid. -/
theorem callBreaker_valid (h : config.InRange) (hs : s.Valid config) (hnow : now < Instant.limit)
    (hpos : ∀ name pool, config.pools.get name = some pool → 0 < pool.breaker.failureThreshold) (name : String)
    (call : Breaker.Call) : ∃ t, s.callBreaker config now name call = some t ∧ t.Valid config := by
  rw [Components.callBreaker]
  cases hp : config.pools.get name with
  | none => exact ⟨s, rfl, hs⟩
  | some pool =>
    dsimp only
    rw [Breaker.performChecked_eq (hs name pool hp) (h.failureThreshold name pool hp) hnow]
    refine ⟨_, rfl, ?_⟩
    intro other config hother
    dsimp only
    rw [Function.update_apply]
    split
    · next heq =>
      rw [heq] at hother
      cases hp.symm.trans hother
      exact (hs name pool hp).perform (hpos name pool hp) call
    · exact hs other config hother

private theorem callLimiter_valid (h : config.InRange) (hs : s.Valid config) (hnow : now < Instant.limit) (call : RateLimit.Call String) :
    ∃ t, s.callLimiter config h now call = some t ∧ t.Valid config := by
  rw [Components.callLimiter, RateLimit.performChecked_eq _ hnow]
  exact ⟨_, rfl, hs⟩

/-- Lookups and sweeps of the cache do not overflow; an insertion does exactly when its
answer would expire too late. -/
theorem callCache_valid (hs : s.Valid config) (call : CacheCall Digest) :
    ((∃ t, s.callCache config now call = some t) ↔ ExpiresInTime config ⟨now, .cache call⟩) ∧
      ∀ t, s.callCache config now call = some t → t.Valid config := by
  rw [Components.callCache]
  cases hj : config.auth.jwt with
  | none =>
    refine ⟨iff_of_true ⟨s, rfl⟩ ?_, ?_⟩
    · intro digest active jwt _ hjwt
      cases hj.symm.trans hjwt
    · intro t ht
      cases ht
      exact hs
  | some jwt =>
    dsimp only
    refine ⟨?_, ?_⟩
    · cases call with
      | get digest => exact iff_of_true ⟨_, rfl⟩ (by rintro _ _ _ ⟨⟩)
      | sweep => exact iff_of_true ⟨_, rfl⟩ (by rintro _ _ _ ⟨⟩)
      | insert digest active =>
        have hiff := insertChecked_some_iff (.new jwt.introspection.cacheSecs) s.cache now digest active
        constructor
        · rintro ⟨t, ht⟩ _ _ _ _ hjwt
          cases hj.symm.trans hjwt
          obtain ⟨next, hnext, -⟩ := Option.map_eq_some_iff.mp ht
          exact hiff.mp ⟨next, hnext⟩
        · intro hin
          obtain ⟨next, hnext⟩ := hiff.mpr (hin digest active jwt rfl hj)
          exact ⟨_, Option.map_eq_some_iff.mpr ⟨next, hnext, rfl⟩⟩
    · intro t ht
      obtain ⟨cache, -, rfl⟩ := Option.map_eq_some_iff.mp ht
      exact hs

/-- A call that is no insertion into the cache has to have a result. -/
theorem total_of_valid {result : Option Components} (hcall : ∀ digest active, reading.call ≠ .cache (.insert digest active))
    (hresult : ∃ t, result = some t ∧ t.Valid config) :
    ((∃ t, result = some t) ↔ ExpiresInTime config reading) ∧ ∀ t, result = some t → t.Valid config := by
  obtain ⟨t, rfl, ht⟩ := hresult
  refine ⟨iff_of_true ⟨t, rfl⟩ ?_, ?_⟩
  · intro digest active jwt heq
    exact absurd heq (hcall digest active)
  · intro u hu
    cases hu
    exact ht

/-- A call has a result exactly when what it inserts expires in time, and the breakers
stay valid. -/
theorem step_valid (h : config.InRange) (hs : s.Valid config) (hnow : reading.now < Instant.limit)
    (hpos : ∀ name pool, config.pools.get name = some pool → 0 < pool.breaker.failureThreshold) :
    ((∃ t, s.step config h reading = some t) ↔ ExpiresInTime config reading) ∧
      ∀ t, s.step config h reading = some t → t.Valid config := by
  obtain ⟨now, call⟩ := reading
  cases call with
  | breaker name call => exact total_of_valid (by rintro _ _ ⟨⟩) (callBreaker_valid h hs hnow hpos name call)
  | limiter call => exact total_of_valid (by rintro _ _ ⟨⟩) (callLimiter_valid h hs hnow call)
  | cache call => exact callCache_valid hs call

private theorem run_isSome_iff (h : config.InRange) (hs : s.Valid config)
    (hpos : ∀ name pool, config.pools.get name = some pool → 0 < pool.breaker.failureThreshold) (run : List Reading)
    (hnow : ∀ reading ∈ run, reading.now < Instant.limit) :
    (∃ t, (components config h).run s run = some t) ↔ ∀ reading ∈ run, ExpiresInTime config reading := by
  induction run generalizing s with
  | nil => exact iff_of_true ⟨s, rfl⟩ fun _ hmem => absurd hmem List.not_mem_nil
  | cons reading run ih =>
    rw [List.forall_mem_cons] at hnow ⊢
    obtain ⟨hiff, hvalid⟩ := step_valid h hs hnow.1 hpos
    rw [← hiff]
    constructor
    · rintro ⟨u, hu⟩
      obtain ⟨t, ht, hu⟩ := Machine.run_cons hu
      exact ⟨⟨t, ht⟩, (ih (hvalid t ht) hnow.2).mp ⟨u, hu⟩⟩
    · rintro ⟨⟨t, ht⟩, hrest⟩
      obtain ⟨u, hu⟩ := (ih (hvalid t ht) hnow.2).mpr hrest
      exact ⟨u, Option.bind_eq_some_iff.mpr ⟨t, ht, hu⟩⟩

end Totality

/-- With a valid configuration a run of the components overflows nowhere exactly when
every answer put into the introspection cache expires at an instant. -/
theorem time_arithmetic_total_iff (parsers : Parsers) (config : Config) (hv : config.validate parsers = .ok ())
    (h : config.InRange) (run : List Reading) (hnow : ∀ reading ∈ run, reading.now < Instant.limit) :
    (∃ t, (components config h).run .new run = some t) ↔
      ∀ reading ∈ run, ∀ digest active jwt, reading.call = .cache (.insert digest active) → config.auth.jwt = some jwt →
        reading.now + Duration.fromSecs jwt.introspection.cacheSecs < 2 ^ 63 * nanosPerSec := by
  have hpos : ∀ name pool, config.pools.get name = some pool → 0 < pool.breaker.failureThreshold :=
    fun name pool hp => Nat.pos_of_ne_zero (Config.validate_pool hv hp).failureThreshold
  exact run_isSome_iff h (fun name pool hp => Breaker.valid_new (hpos name pool hp)) hpos run hnow

section Fixed

def introspecting (cacheSecs : Nat) : Config where
  server := .default
  auth := ⟨some ⟨"https://issuer.test", "srh", 600, "redis:", "srh",
    ⟨true, "https://issuer.test/introspect", "client", "secret", cacheSecs⟩⟩, .empty⟩
  pools := FiniteMap.empty.insert "cache" (.new "redis://localhost:6379" 3 2000 500 none none)

private theorem introspecting_inRange (cacheSecs : Nat) : (introspecting cacheSecs).InRange where
  rate := Nat.two_pow_pos 64
  failureThreshold := by
    intro name pool hp
    rcases FiniteMap.get_insert_some.mp hp with ⟨-, rfl⟩ | ⟨-, hempty⟩
    · decide
    · cases hempty

def firstAnswer : Reading := ⟨0, .cache (.insert (firstByte [97]) true)⟩

private theorem firstAnswer_in_time : ∀ reading ∈ [firstAnswer], reading.now < Instant.limit := by
  intro reading hmem
  rw [List.mem_singleton.mp hmem]
  decide

theorem time_arithmetic_total_iff_thirty :
    ∃ t, (components (introspecting 30) (introspecting_inRange 30)).run .new [firstAnswer] = some t := by
  refine (time_arithmetic_total_iff lenient (introspecting 30) rfl (introspecting_inRange 30) [firstAnswer]
    firstAnswer_in_time).mpr ?_
  intro reading hmem digest active jwt _ hjwt
  rw [List.mem_singleton.mp hmem]
  cases hjwt
  decide

/-- Validation admits a time to live after which there is no instant. -/
theorem cache_secs_overflow :
    (introspecting (2 ^ 64 - 1)).validate lenient = .ok () ∧ firstAnswer.now < Instant.limit ∧
      (components (introspecting (2 ^ 64 - 1)) (introspecting_inRange _)).run .new [firstAnswer] = none :=
  ⟨rfl, by decide, rfl⟩

end Fixed
end Srh
