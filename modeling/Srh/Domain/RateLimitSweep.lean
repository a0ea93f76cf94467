import Srh.Domain.RateLimitEviction
import Srh.Domain.RateLimitRetry

/-! Two runs of the limiter that differ only in their sweeps. A sweep deletes
buckets, and a key that comes back is given a full one: callers cannot tell as
long as the deleted bucket would have been full as well. -/
namespace Srh.Domain.RateLimit
open Srh.Lib

/-- Refilling a bucket keeps it ahead of the largest debt. -/
private theorem refill_aged {K : Type} {limiter : RateLimiter} {bound now : Nat} {b : Bucket K}
    (hl : b.lastAccess ≤ b.updated) (hu : b.updated ≤ now)
    (hb : TokenBucket.refill (limiter.rate : ℚ) limiter.capacity (-((max bound 1 : Nat) : ℚ))
      (elapsedSecs b.updated b.lastAccess) ≤ b.balance) :
    TokenBucket.refill (limiter.rate : ℚ) limiter.capacity (-((max bound 1 : Nat) : ℚ))
      (elapsedSecs now b.lastAccess) ≤ (refill limiter b now).balance := by
  rw [← Reference.elapsedSecs_add hl hu, ← TokenBucket.refill_refill (Nat.cast_nonneg _) _ _ (elapsedSecs_nonneg _ _)]
  exact TokenBucket.refill_mono hb

variable {K : Type} [DecidableEq K] {limiter : RateLimiter}

def results (limiter : RateLimiter) (state : State K) : List (Timed K) → List Outcome
  | [] => []
  | c :: cs =>
    (match (perform limiter state c).1 with
      | .outcome o => [o]
      | .count _ => []) ++ results limiter (perform limiter state c).2 cs

def withoutSweeps (calls : List (Timed K)) : List (Timed K) := calls.filter fun c => c.call ≠ .sweepIdle

/-- Every bucket that a sweep of the run removes has refilled to capacity by then. -/
def SweepsFull (limiter : RateLimiter) (state : State K) : List (Timed K) → Prop
  | [] => True
  | c :: cs =>
    (c.call = .sweepIdle → ∀ k b, state.buckets.entries.get k = some b →
      (perform limiter state c).2.buckets.entries.get k = none → (refill limiter b c.now).balance = limiter.capacity) ∧
      SweepsFull limiter (perform limiter state c).2 cs

def OverKeys (keys : List K) (calls : List (Timed K)) : Prop :=
  ∀ c ∈ calls, ∀ k a, c.call.access? = some (k, a) → k ∈ keys

def State.OverKeys (keys : List K) (state : State K) : Prop := ∀ k, state.view k ≠ none → k ∈ keys

section Room
variable {state : State K} {keys : List K}

/-- With one bucket for each of the listed keys there is always room for the next. -/
theorem not_atBound (hlen : keys.length ≤ limiter.maxBuckets) (hsub : state.OverKeys keys) {key : K}
    (hkey : key ∈ keys) : ¬ AtBound limiter state key := by
  rintro ⟨_, hnone, hfull⟩
  have hnodup : (key :: state.buckets.entries.keys).Nodup :=
    List.nodup_cons.mpr ⟨FiniteMap.get_eq_none.mp hnone, state.buckets.entries.keys_nodup⟩
  have hincl : key :: state.buckets.entries.keys ⊆ keys := by
    intro j hj
    rcases List.mem_cons.mp hj with rfl | hj
    · exact hkey
    · exact hsub j fun hn => FiniteMap.get_eq_none.mp (view_eq_none.mp hn) hj
  have hle : state.buckets.entries.len + 1 ≤ keys.length := (List.subperm_of_subset hnodup hincl).length_le
  omega

/-- An access that evicts nothing leaves the views of the other keys. -/
theorem access_view_other {key : K} (hb : ¬ AtBound limiter state key) (now : Nat) (a : Access) {j : K}
    (hne : j ≠ key) : (access limiter state now key a).2.view j = state.view j := by
  simp only [State.view]
  rcases access_get_other limiter state now a hne with he | hn
  · rw [he]
  · have hgone : state.buckets.entries.get j = none := by
      by_contra hsome
      exact (access_below_bound hb now a).1 j hsome hn
    rw [hn, hgone]

end Room

section Mirrors

/-- The views of one key in a swept and in an unswept run at the given time: the
same bucket up to the date it was last refilled, or none for a full one. -/
def Mirrors (limiter : RateLimiter) (now : Nat) : Option Reference → Option Reference → Prop
  | none, none => True
  | some v, some r => Tracks limiter (some v) (some r) ∧ v.updated ≤ now
  | none, some r => r.updated ≤ now ∧ (r.advance limiter now).balance = limiter.capacity
  | some _, none => False

variable {v r : Option Reference} {now later : Nat}

private theorem advance_of_full {r : Reference} (hu : r.updated ≤ now)
    (hf : (r.advance limiter now).balance = limiter.capacity) (hle : now ≤ later) :
    r.advance limiter later = Reference.fresh limiter later := by
  have hfull : r.advance limiter now = Reference.fresh limiter now := by
    rw [Reference.fresh, ← hf]
    rfl
  rw [← Reference.advance_advance r hu hle, hfull]
  simp only [Reference.advance, Reference.fresh, TokenBucket.refill, Reference.mk.injEq, and_true]
  exact min_eq_right (le_add_of_nonneg_right (mul_nonneg (elapsedSecs_nonneg _ _) (Nat.cast_nonneg _)))

theorem Mirrors.mono (h : Mirrors limiter now v r) (hle : now ≤ later) : Mirrors limiter later v r := by
  match v, r, h with
  | none, none, _ => trivial
  | some v, some r, ⟨ht, hu⟩ => exact ⟨ht, hu.trans hle⟩
  | none, some r, ⟨hu, hf⟩ =>
    refine ⟨hu.trans hle, ?_⟩
    rw [advance_of_full hu hf hle]
    rfl

/-- The next access cannot tell the two runs apart. -/
theorem Mirrors.access (h : Mirrors limiter now v r) (a : Access) :
    Reference.access limiter now a v = Reference.access limiter now a r := by
  match v, r, h with
  | none, none, _ => rfl
  | some v, some r, ⟨ht, hu⟩ => exact ht.access a (by rintro w ⟨⟩; exact hu)
  | none, some r, ⟨hu, hf⟩ =>
    rw [Reference.access_eq, Reference.access_eq]
    simp only [Reference.current, advance_of_full hu hf le_rfl]

private theorem mirrors_self {r : Reference} (hb : r.balance ≤ limiter.capacity) (hu : r.updated ≤ now) :
    Mirrors limiter now (some r) (some r) :=
  ⟨tracks_self hb, hu⟩

/-- A sweep that keeps the bucket. -/
theorem Mirrors.advance (h : Mirrors limiter now v r) : Mirrors limiter now (v.map (Reference.advance limiter · now)) r := by
  match v, r, h with
  | none, none, _ => trivial
  | some v, some r, ⟨ht, hu⟩ => exact ⟨ht.advance (by rintro w ⟨⟩; exact hu), le_rfl⟩
  | none, some r, h => exact h

/-- A sweep that removes a full bucket. -/
theorem Mirrors.remove {v : Reference} (h : Mirrors limiter now (some v) r)
    (hf : (v.advance limiter now).balance = limiter.capacity) : Mirrors limiter now none r := by
  match r, h with
  | some r, ⟨⟨hb, hu, he⟩, hv⟩ =>
    refine ⟨hu.trans hv, ?_⟩
    rw [he, Reference.advance_advance r hu hv] at hf
    exact hf

/-- Where the swept run has a bucket, the other one has. -/
theorem Mirrors.ne_none (h : Mirrors limiter now v r) (hv : v ≠ none) : r ≠ none := by
  match v, r, h with
  | none, _, _ => exact absurd rfl hv
  | some v, some r, _ => simp

end Mirrors

section Simulation
variable {swept kept : State K} {now : Nat}

/-- A sweep of one of the two runs. -/
theorem mirrors_sweep (hr : limiter.rate ≠ 0) (hm : ∀ k, Mirrors limiter now (swept.view k) (kept.view k))
    (hfull : ∀ k b, swept.buckets.entries.get k = some b →
      (sweepIdle limiter swept now).2.buckets.entries.get k = none → (refill limiter b now).balance = limiter.capacity)
    (k : K) : Mirrors limiter now ((sweepIdle limiter swept now).2.view k) (kept.view k) := by
  by_cases hgone : (sweepIdle limiter swept now).2.buckets.entries.get k = none
  · rw [view_eq_none.mpr hgone]
    cases hb : swept.buckets.entries.get k with
    | none =>
      rw [← view_eq_none.mpr hb]
      exact hm k
    | some b =>
      have hv : swept.view k = some b.view := by rw [State.view, hb]; rfl
      have hmk := hm k
      rw [hv] at hmk
      exact hmk.remove (hfull k b hb hgone)
  · have hother (a : Access) : (Call.sweepIdle : Call K).access? ≠ some (k, a) := by simp [Call.access?]
    rcases perform_view_other ⟨now, .sweepIdle⟩ hr (fun _ => hgone) hother with hv | ⟨_, hv⟩
    · rw [show (sweepIdle limiter swept now).2.view k = _ from hv]
      exact hm k
    · rw [show (sweepIdle limiter swept now).2.view k = _ from hv]
      exact (hm k).advance

/-- The same access in the two runs. -/
theorem mirrors_access (hr : limiter.rate ≠ 0) {keys : List K} (hlen : keys.length ≤ limiter.maxBuckets)
    (hm : ∀ k, Mirrors limiter now (swept.view k) (kept.view k)) (hwithin : kept.OverKeys keys) {key : K}
    (hkey : key ∈ keys) (a : Access) :
    (access limiter swept now key a).1 = (access limiter kept now key a).1 ∧
      (∀ k, Mirrors limiter now ((access limiter swept now key a).2.view k) ((access limiter kept now key a).2.view k)) ∧
      (access limiter kept now key a).2.OverKeys keys := by
  have hwithin' : swept.OverKeys keys := fun k hk => hwithin k ((hm k).ne_none hk)
  obtain ⟨ho, hv⟩ := access_view_self swept key now a hr
  obtain ⟨ho', hv'⟩ := access_view_self kept key now a hr
  rw [(hm key).access a] at ho hv
  refine ⟨ho.trans ho'.symm, fun k => ?_, fun k hk => ?_⟩
  · by_cases he : k = key
    · rw [he, hv, hv']
      exact mirrors_self (Reference.access_balance_le ..) (Reference.access_updated ..).le
    · rw [access_view_other (not_atBound hlen hwithin' hkey) now a he,
        access_view_other (not_atBound hlen hwithin hkey) now a he]
      exact hm k
  · by_cases he : k = key
    · rw [he]
      exact hkey
    · rw [access_view_other (not_atBound hlen hwithin hkey) now a he] at hk
      exact hwithin k hk

/-- Along the run, the sweeps of one copy stay invisible. -/
theorem results_eq_of_mirrors (hr : limiter.rate ≠ 0) {keys : List K} (hlen : keys.length ≤ limiter.maxBuckets)
    (calls : List (Timed K)) {swept kept : State K} {now : Nat}
    (hm : ∀ k, Mirrors limiter now (swept.view k) (kept.view k)) (hstate : kept.OverKeys keys)
    (hwithin : OverKeys keys calls) (hclock : NonDecreasing calls) (hlater : ∀ c ∈ calls, now ≤ c.now)
    (hfull : SweepsFull limiter swept calls) :
    results limiter swept calls = results limiter kept (withoutSweeps calls) := by
  induction calls generalizing swept kept now with
  | nil => rfl
  | cons c calls ih =>
    obtain ⟨time, call⟩ := c
    obtain ⟨hfirst, hsorted⟩ := List.pairwise_cons.mp hclock
    obtain ⟨hin, hrest⟩ := List.forall_mem_cons.mp hwithin
    obtain ⟨hsweep, hfulls⟩ := hfull
    have hnow (k : K) : Mirrors limiter time (swept.view k) (kept.view k) := (hm k).mono (hlater _ List.mem_cons_self)
    -- the two copies make the same access
    have own {key : K} {a : Access} (ha : call.access? = some (key, a)) :
        results limiter swept (⟨time, call⟩ :: calls) =
          results limiter kept (⟨time, call⟩ :: withoutSweeps calls) := by
      obtain ⟨ho, hm, hstate⟩ := mirrors_access hr hlen hnow hstate (hin key a ha) a
      have hp := perform_access limiter (c := ⟨time, call⟩) ha swept
      rw [hp] at hfulls
      rw [results, results, hp, perform_access limiter ha kept]
      exact congrArg₂ List.cons ho (ih hm hstate hrest hsorted hfirst hfulls)
    cases call with
    | sweepIdle => exact ih (mirrors_sweep hr hnow (hsweep rfl)) hstate hrest hsorted hfirst hfulls
    | takeDebtForgivenEvictions => exact ih hnow hstate hrest hsorted hfirst hfulls
    | probe key => exact own rfl
    | charge key n => exact own rfl

end Simulation

section Aging
variable {state : State K} {now : Nat} {bound : Nat}

/-- Buckets refill at least as fast since their last access as the largest debt would. -/
def State.Aged (limiter : RateLimiter) (bound now : Nat) (state : State K) : Prop :=
  ∀ k b, state.buckets.entries.get k = some b → b.lastAccess ≤ b.updated ∧ b.updated ≤ now ∧
    TokenBucket.refill (limiter.rate : ℚ) limiter.capacity (-((max bound 1 : Nat) : ℚ))
      (elapsedSecs b.updated b.lastAccess) ≤ b.balance

private theorem State.Aged.mono (h : state.Aged limiter bound now) {later : Nat} (hle : now ≤ later) :
    state.Aged limiter bound later := by
  intro k b hb
  obtain ⟨hl, hu, hbal⟩ := h k b hb
  exact ⟨hl, hu.trans hle, hbal⟩

/-- The bucket of an accessed key carries the time of the access. -/
theorem access_stamps (hr : limiter.rate ≠ 0) {key : K} {a : Access} {c : Bucket K}
    (h : (access limiter state now key a).2.buckets.entries.get key = some c) :
    c.updated = now ∧ c.lastAccess = now := by
  rw [access, if_neg hr] at h
  cases hk : state.buckets.entries.get key with
  | some b =>
    simp only [hk, touch, FiniteMap.get_insert_self, link_bucket, Option.some.injEq] at h
    rw [← h, settle_bucket]
    exact ⟨rfl, rfl⟩
  | none =>
    simp only [hk, admitNew, FiniteMap.get_insert_self, link_bucket, Option.some.injEq] at h
    rw [← h, settle_bucket]
    exact ⟨rfl, rfl⟩

private theorem State.Aged.access (h : state.Aged limiter bound now) (hr : limiter.rate ≠ 0) (key : K) (a : Access)
    (hdebt : (access limiter state now key a).2.DebtBelow bound) :
    (RateLimit.access limiter state now key a).2.Aged limiter bound now := by
  intro k b hb
  by_cases he : k = key
  · subst he
    obtain ⟨hu, hl⟩ := access_stamps hr hb
    have hbal : -((max bound 1 : Nat) : ℚ) < b.balance := hdebt k b.view (by rw [State.view, hb]; rfl)
    refine ⟨by rw [hu, hl], hu.le, ?_⟩
    refine TokenBucket.refill_le_add.trans ?_
    simp only [hu, hl, elapsedSecs, Nat.sub_self, Nat.cast_zero, zero_div, zero_mul, add_zero]
    exact hbal.le
  · rcases access_get_other limiter state now a he with hsame | hnone
    · exact h k b (hsame ▸ hb)
    · rw [hnone] at hb
      cases hb

private theorem State.Aged.sweepIdle (h : state.Aged limiter bound now) (hr : limiter.rate ≠ 0) :
    (RateLimit.sweepIdle limiter state now).2.Aged limiter bound now := by
  intro k b hb
  rw [sweepIdle_get limiter state now hr] at hb
  cases hk : state.buckets.entries.get k with
  | none =>
    rw [hk] at hb
    cases hb
  | some b' =>
    obtain ⟨hl, hu, hbal⟩ := h k b' hk
    rw [hk, Option.map_some, Option.filter_some] at hb
    split at hb
    · cases hb
      exact ⟨hl.trans hu, le_rfl, refill_aged hl hu hbal⟩
    · cases hb

/-- When the largest debt is repaid within the idle time, what a sweep removes is full. -/
theorem State.Aged.removed_full (h : state.Aged limiter bound now) (hr : limiter.rate ≠ 0)
    (hbound : ((max bound 1 : Nat) : ℚ) + limiter.capacity ≤ 900 * limiter.rate) {k : K} {b : Bucket K}
    (hk : state.buckets.entries.get k = some b)
    (hgone : (RateLimit.sweepIdle limiter state now).2.buckets.entries.get k = none) :
    (refill limiter b now).balance = limiter.capacity := by
  obtain ⟨hl, hu, hbal⟩ := h k b hk
  have hidle : idleEviction ≤ now - b.lastAccess := by
    rw [sweepIdle_get limiter state now hr, hk, Option.map_some, Option.filter_some] at hgone
    split at hgone
    · cases hgone
    · next hi =>
      simp only [isIdle, Bool.not_eq_true', Bool.not_eq_false, Bool.and_eq_true, decide_eq_true_eq] at hi
      exact hi.2
  have hsecs : (900 : ℚ) ≤ elapsedSecs now b.lastAccess := by
    rw [elapsedSecs, le_div_iff₀ (by rw [nanosPerSec]; norm_num)]
    exact_mod_cast hidle
  refine le_antisymm (min_le_right _ _) ((le_min ?_ le_rfl).trans (refill_aged hl hu hbal))
  have := mul_le_mul_of_nonneg_right hsecs (Nat.cast_nonneg limiter.rate : (0 : ℚ) ≤ limiter.rate)
  linarith

/-- Along a run whose charges are repaid within the idle time, sweeps remove full buckets only. -/
theorem sweepsFull_of_charges (bound now : Nat) (hr : limiter.rate ≠ 0)
    (hbound : ((max bound 1 : Nat) : ℚ) + limiter.capacity ≤ 900 * limiter.rate) (calls : List (Timed K))
    {state : State K} (hage : state.Aged limiter bound now) (hdebt : state.DebtBelow bound)
    (hcharges : ∀ c ∈ calls, ∀ k n, c.call = .charge k n → n ≤ bound) (hclock : NonDecreasing calls)
    (hlater : ∀ c ∈ calls, now ≤ c.now) : SweepsFull limiter state calls := by
  induction calls generalizing state now with
  | nil => trivial
  | cons c calls ih =>
    obtain ⟨time, call⟩ := c
    obtain ⟨hfirst, hsorted⟩ := List.pairwise_cons.mp hclock
    obtain ⟨hcharge, hrest⟩ := List.forall_mem_cons.mp hcharges
    have hnow : state.Aged limiter bound time := hage.mono (hlater _ List.mem_cons_self)
    have hnext := hdebt.perform hr ⟨time, call⟩ hcharge
    refine ⟨?_, ih time ?_ hnext hrest hsorted hfirst⟩
    · rintro rfl k b hk hgone
      exact hnow.removed_full hr hbound hk hgone
    · cases call with
      | sweepIdle => exact hnow.sweepIdle hr
      | takeDebtForgivenEvictions => exact hnow
      | probe key => exact hnow.access hr key .probe hnext
      | charge key n => exact hnow.access hr key (.charge n) hnext

/-- The charges of a run are repaid within the idle time if each fits into what a
bucket earns meanwhile beyond its capacity. -/
theorem sweepsFull_of_small (hr : 0 < limiter.rate) {calls : List (Timed K)}
    (hcharges : ∀ c ∈ calls, ∀ k n, c.call = .charge k n → (n : ℚ) + limiter.capacity ≤ 900 * limiter.rate)
    (hclock : NonDecreasing calls) : SweepsFull limiter .empty calls := by
  obtain ⟨bound, hb⟩ : ∃ bound, bound = 900 * limiter.rate - min (limiter.rate * 2) (2 ^ 64 - 1) := ⟨_, rfl⟩
  have hmax : max bound 1 + min (limiter.rate * 2) (2 ^ 64 - 1) ≤ 900 * limiter.rate := by omega
  refine sweepsFull_of_charges bound 0 hr.ne' ?_ calls ?_ ?_ ?_ hclock (fun _ _ => Nat.zero_le _)
  · rw [RateLimiter.capacity]
    exact_mod_cast hmax
  · intro k b h
    cases h
  · intro k r h
    cases h
  · intro c hc k n hcall
    have hle := hcharges c hc k n hcall
    rw [RateLimiter.capacity] at hle
    have hle : n + min (limiter.rate * 2) (2 ^ 64 - 1) ≤ 900 * limiter.rate := by exact_mod_cast hle
    omega

end Aging

/-- Sweeps are invisible to the callers of a run over at most as many keys as
there may be buckets, provided that every bucket a sweep removes has refilled to
capacity by then, or that no charge is larger than what a bucket earns in the
idle time beyond its capacity. -/
theorem sweeps_invisible (limiter : RateLimiter) (keys : List K) (calls : List (Timed K)) (hr : 0 < limiter.rate)
    (hlen : keys.length ≤ limiter.maxBuckets) (hwithin : OverKeys keys calls) (hclock : NonDecreasing calls)
    (hfull : SweepsFull limiter .empty calls ∨
      ∀ c ∈ calls, ∀ k n, c.call = .charge k n → (n : ℚ) + limiter.capacity ≤ 900 * limiter.rate) :
    results limiter .empty calls = results limiter .empty (withoutSweeps calls) := by
  have hempty (k : K) : (State.empty : State K).view k = none := rfl
  have hfull : SweepsFull limiter .empty calls := by
    rcases hfull with hfull | hcharges
    · exact hfull
    · exact sweepsFull_of_small hr hcharges hclock
  have hm (k : K) : Mirrors limiter 0 ((State.empty : State K).view k) ((State.empty : State K).view k) := by
    rw [hempty]
    trivial
  exact results_eq_of_mirrors hr.ne' hlen calls hm (fun k hk => absurd (hempty k) hk) hwithin hclock
    (fun _ _ => Nat.zero_le _) hfull

def smallDebtSwept : List (Timed Nat) := [⟨0, .charge 1 3⟩, ⟨idleEviction, .sweepIdle⟩, ⟨idleEviction, .probe 1⟩]

theorem sweeps_invisible_smallDebtSwept :
    results (.withMaxBuckets 1 (by decide) 2) .empty smallDebtSwept = [.ok (), .ok ()] ∧
    results (.withMaxBuckets 1 (by decide) 2) .empty smallDebtSwept =
      results (.withMaxBuckets 1 (by decide) 2) .empty (withoutSweeps smallDebtSwept) :=
  ⟨by decide +kernel, sweeps_invisible (.withMaxBuckets 1 (by decide) 2) [1] smallDebtSwept (by decide) (by decide)
    (by simp [OverKeys, smallDebtSwept, Call.access?]) (by unfold NonDecreasing; decide +kernel)
    (.inr (by
      simp only [smallDebtSwept, List.forall_mem_cons]
      refine ⟨?_, by simp⟩
      rintro k n ⟨⟩
      norm_num [RateLimiter.capacity, RateLimiter.withMaxBuckets]))⟩

def repaidAtSweep : List (Timed Nat) := [⟨0, .charge 1 902⟩, ⟨idleEviction, .sweepIdle⟩, ⟨idleEviction, .probe 1⟩]

theorem sweep_refills_repaid :
    results (.withMaxBuckets 1 (by decide) 2) .empty repaidAtSweep = [.ok (), .ok ()] ∧
    results (.withMaxBuckets 1 (by decide) 2) .empty (withoutSweeps repaidAtSweep) = [.ok (), .error ⟨1⟩] := by
  decide +kernel

end Srh.Domain.RateLimit
