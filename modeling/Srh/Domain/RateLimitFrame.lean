import Srh.Domain.RateLimitInvariant

/-! What one call does to the bucket of one key. Every result about a single
credential reads the limiter through these equations. -/
namespace Srh.Domain.RateLimit
open Srh.Lib

section Bucket
variable {K : Type} (limiter : RateLimiter)

def sweptBucket (now : Nat) (b : Bucket K) : Bucket K :=
  { refill limiter b now with
    indebted := b.indebted && decide ((refill limiter b now).balance < 0) }

/-- Settling reads nothing of the bucket but its balance. -/
theorem settle_congr {b c : Bucket K} (h : b.balance = c.balance) (a : Access) :
    (settle limiter b a).1 = (settle limiter c a).1 ∧
      (settle limiter b a).2.balance = (settle limiter c a).2.balance := by
  simp only [settle]
  rw [h]
  split
  · exact ⟨rfl, h⟩
  · cases a with
    | probe => exact ⟨rfl, h⟩
    | charge n => exact ⟨rfl, rfl⟩

end Bucket

variable {K : Type} [DecidableEq K] {limiter : RateLimiter}

/-- An access to a key with a bucket settles the refilled balance. -/
theorem access_get_self {state : State K} (now : Nat) {key : K} {b : Bucket K} (a : Access)
    (hr : limiter.rate ≠ 0) (hk : state.buckets.entries.get key = some b) :
    (access limiter state now key a).1 = (settle limiter (refill limiter b now) a).1 ∧
      ∃ c, (access limiter state now key a).2.buckets.entries.get key = some c ∧ c.updated = now ∧
        c.balance = (settle limiter (refill limiter b now) a).2.balance := by
  have hc := settle_congr limiter (b := { refill limiter b now with lastAccess := now })
    (c := refill limiter b now) rfl a
  rw [access]
  simp only [if_neg hr, hk, touch, FiniteMap.get_insert_self, link_bucket]
  refine ⟨hc.1, _, rfl, ?_, hc.2⟩
  rw [settle_bucket]
  rfl

/-- The first access of a key settles a full bucket. -/
theorem access_get_new {state : State K} (now : Nat) {key : K} (a : Access) (hr : limiter.rate ≠ 0)
    (hk : state.buckets.entries.get key = none) :
    (access limiter state now key a).1 =
        (settle limiter ⟨limiter.capacity, now, now, 0, key, false⟩ a).1 ∧
      ∃ c, (access limiter state now key a).2.buckets.entries.get key = some c ∧ c.updated = now ∧
        c.balance = (settle limiter ⟨limiter.capacity, now, now, 0, key, false⟩ a).2.balance := by
  rw [access]
  simp only [if_neg hr, hk, admitNew, FiniteMap.get_insert_self, link_bucket]
  refine ⟨trivial, _, rfl, ?_, rfl⟩
  rw [settle_bucket]

private theorem evictOne_get (buckets : Buckets K) (key : K) :
    (evictOne buckets).1.entries.get key = buckets.entries.get key ∨
      (evictOne buckets).1.entries.get key = none := by
  have hremove (victim : K) : (buckets.entries.remove victim).get key = buckets.entries.get key ∨
      (buckets.entries.remove victim).get key = none := by
    rw [FiniteMap.get_remove]
    split
    · exact .inr rfl
    · exact .inl rfl
  rw [evictOne]
  split
  · exact hremove _
  · split
    · exact hremove _
    · exact .inl rfl

/-- An access to another key leaves the bucket alone unless it evicts it. -/
theorem access_get_other (limiter : RateLimiter) (state : State K) (now : Nat) {key other : K} (a : Access) (hne : key ≠ other) :
    (access limiter state now other a).2.buckets.entries.get key = state.buckets.entries.get key ∨
      (access limiter state now other a).2.buckets.entries.get key = none := by
  rw [access]
  split
  · exact .inl rfl
  · split
    · refine .inl ?_
      simp only [touch, FiniteMap.get_insert, if_neg hne]
    · simp only [admitNew, FiniteMap.get_insert, if_neg hne]
      split
      · exact evictOne_get _ _
      · exact .inl rfl

section Sweep
variable (limiter)

private theorem sweepStep_get (now : Nat) (acc : Buckets K × List K) (key k : K) :
    (sweepStep limiter now acc key).1.entries.get k =
      if k = key then (acc.1.entries.get k).map (sweptBucket limiter now) else acc.1.entries.get k := by
  rw [sweepStep]
  cases hk : acc.1.entries.get key with
  | none =>
    by_cases he : k = key
    · subst he; simp [hk]
    · simp [he]
  | some b =>
    simp only [FiniteMap.get_insert, leaveDebt_bucket]
    split
    · next he => subst he; rw [hk]; rfl
    · rfl

/-- Each key of the first loop is swept exactly once. -/
private theorem sweepSteps_get (now : Nat) (keys : List K) (hn : keys.Nodup) (acc : Buckets K × List K) (k : K) :
    (keys.foldl (sweepStep limiter now) acc).1.entries.get k =
      if k ∈ keys then (acc.1.entries.get k).map (sweptBucket limiter now) else acc.1.entries.get k := by
  induction keys generalizing acc with
  | nil => rfl
  | cons key keys ih =>
    obtain ⟨hkey, hn⟩ := List.nodup_cons.mp hn
    rw [List.foldl_cons, ih hn, sweepStep_get]
    by_cases he : k = key
    · subst he
      simp [hkey]
    · simp [he]

private theorem sweepSteps_idle (now : Nat) (keys : List K) (hn : keys.Nodup) (acc : Buckets K × List K) (k : K) :
    k ∈ (keys.foldl (sweepStep limiter now) acc).2 ↔ k ∈ acc.2 ∨
      (k ∈ keys ∧ ∃ b, acc.1.entries.get k = some b ∧ isIdle now (sweptBucket limiter now b) = true) := by
  induction keys generalizing acc with
  | nil => simp
  | cons key keys ih =>
    obtain ⟨hkey, hn⟩ := List.nodup_cons.mp hn
    have hidle : k ∈ (sweepStep limiter now acc key).2 ↔ k ∈ acc.2 ∨ (k = key ∧
        ∃ b, acc.1.entries.get k = some b ∧ isIdle now (sweptBucket limiter now b) = true) := by
      rw [sweepStep]
      cases hk : acc.1.entries.get key with
      | none => grind
      | some b =>
        simp only [leaveDebt_bucket]
        change k ∈ (if isIdle now (sweptBucket limiter now b) then acc.2 ++ [key] else acc.2) ↔ _
        split <;> grind
    rw [List.foldl_cons, ih hn, hidle, sweepStep_get]
    by_cases he : k = key
    · subst he
      simp [hkey]
    · simp [he]

private theorem dropIdle_get (keys : List K) (buckets : Buckets K) (k : K) :
    (keys.foldl dropIdle buckets).entries.get k = if k ∈ keys then none else buckets.entries.get k := by
  induction keys generalizing buckets with
  | nil => rfl
  | cons key keys ih =>
    have hstep : (dropIdle buckets key).entries.get k = if k = key then none else buckets.entries.get k := by
      rw [dropIdle]
      cases hk : buckets.entries.get key with
      | none =>
        by_cases he : k = key
        · subst he; simp [hk]
        · simp [he]
      | some b => exact FiniteMap.get_remove ..
    rw [List.foldl_cons, ih, hstep]
    by_cases he : k = key <;> by_cases hm : k ∈ keys <;> simp [he, hm]

/-- A sweep refills every bucket and removes exactly the idle ones. -/
theorem sweepIdle_get (state : State K) (now : Nat) (hr : limiter.rate ≠ 0) (k : K) :
    (sweepIdle limiter state now).2.buckets.entries.get k =
      ((state.buckets.entries.get k).map (sweptBucket limiter now)).filter fun b => !isIdle now b := by
  rw [sweepIdle]
  simp only [if_neg hr]
  have hn := state.buckets.entries.keys_nodup
  rw [dropIdle_get, sweepSteps_get limiter now _ hn]
  have hidle := sweepSteps_idle limiter now _ hn (state.buckets, []) k
  cases hk : state.buckets.entries.get k with
  | none =>
    have : k ∉ state.buckets.entries.keys := FiniteMap.get_eq_none.mp hk
    simp [this]
  | some b =>
    have hmem : k ∈ state.buckets.entries.keys := FiniteMap.mem_keys.mpr ⟨b, hk⟩
    simp only [hk, hmem, true_and, List.not_mem_nil, false_or, Option.some.injEq, exists_eq_left'] at hidle
    simp only [hmem, if_true, Option.map_some, Option.filter_some]
    by_cases hi : isIdle now (sweptBucket limiter now b) = true
    · rw [if_pos (hidle.mpr hi)]
      simp [hi]
    · rw [if_neg fun h => hi (hidle.mp h)]
      simp [hi]

end Sweep
end Srh.Domain.RateLimit
