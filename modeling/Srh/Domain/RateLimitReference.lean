import Srh.Domain.RateLimitFrame

/-! The limiter refines one ideal bucket per key. A reference bucket knows only
its balance and when it was last brought up to date; it sees neither the other
keys nor the sweeps. -/
namespace Srh.Domain.RateLimit
open Srh.Lib

structure Reference where
  balance : ℚ
  updated : Nat

namespace Reference
variable (limiter : RateLimiter)

def fresh (now : Nat) : Reference := ⟨limiter.capacity, now⟩

def advance (r : Reference) (now : Nat) : Reference :=
  ⟨TokenBucket.refill (limiter.rate : ℚ) limiter.capacity r.balance (elapsedSecs now r.updated), now⟩

/-- Rejected iff not positive; only an admitted charge costs anything. -/
def spend (a : Access) (r : Reference) : Outcome × Reference :=
  if r.balance ≤ 0 then (.error (limiter.exceeded r.balance), r)
  else match a with
    | .charge n => (.ok (), { r with balance := r.balance - (max 1 n : Nat) })
    | .probe => (.ok (), r)

def access (now : Nat) (a : Access) : Option Reference → Outcome × Reference
  | none => (fresh limiter now).spend limiter a
  | some r => (r.advance limiter now).spend limiter a

def outcomes : Option Reference → List (Nat × Access) → List Outcome
  | _, [] => []
  | r, (now, a) :: rest => (access limiter now a r).1 :: outcomes (some (access limiter now a r).2) rest

variable {limiter}

theorem spend_updated (a : Access) (r : Reference) : (r.spend limiter a).2.updated = r.updated := by
  simp only [spend]
  split
  · rfl
  · cases a <;> rfl

private theorem spend_balance_le (a : Access) (r : Reference) : (r.spend limiter a).2.balance ≤ r.balance := by
  simp only [spend]
  split
  · exact le_rfl
  · cases a with
    | probe => exact le_rfl
    | charge n => exact sub_le_self _ (Nat.cast_nonneg _)

theorem access_balance_le (now : Nat) (a : Access) (r : Option Reference) :
    (access limiter now a r).2.balance ≤ limiter.capacity := by
  cases r with
  | none => exact spend_balance_le a _
  | some r => exact (spend_balance_le a _).trans TokenBucket.refill_le_capacity

theorem access_updated (now : Nat) (a : Access) (r : Option Reference) :
    (access limiter now a r).2.updated = now := by
  cases r with
  | none => exact spend_updated a _
  | some r => exact spend_updated a _

theorem elapsedSecs_add {first middle last : Nat} (h : first ≤ middle) (k : middle ≤ last) :
    elapsedSecs middle first + elapsedSecs last middle = elapsedSecs last first := by
  simp only [elapsedSecs]
  rw [← add_div, ← Nat.cast_add]
  congr 2
  omega

/-- Bringing a bucket up to date on the way changes nothing later. -/
theorem advance_advance (r : Reference) {middle last : Nat} (h : r.updated ≤ middle) (k : middle ≤ last) :
    (r.advance limiter middle).advance limiter last = r.advance limiter last := by
  simp only [advance]
  congr 1
  rw [TokenBucket.refill_refill (Nat.cast_nonneg _) _ _ (elapsedSecs_nonneg _ _), elapsedSecs_add h k]

private theorem advance_self (r : Reference) (h : r.balance ≤ limiter.capacity) : r.advance limiter r.updated = r := by
  rw [advance, elapsedSecs]
  rw [Nat.sub_self, Nat.cast_zero, zero_div, TokenBucket.refill_zero h]

end Reference

def Bucket.view {K : Type} (b : Bucket K) : Reference := ⟨b.balance, b.updated⟩

private theorem settle_view {K : Type} (limiter : RateLimiter) (b : Bucket K) (a : Access) :
    (settle limiter b a).1 = (b.view.spend limiter a).1 ∧
      (settle limiter b a).2.balance = (b.view.spend limiter a).2.balance := by
  simp only [settle, Reference.spend]
  by_cases hb : b.balance ≤ 0
  · have hv : b.view.balance ≤ 0 := hb
    rw [if_pos hb, if_pos hv]
    exact ⟨rfl, rfl⟩
  · have hv : ¬ b.view.balance ≤ 0 := hb
    rw [if_neg hb, if_neg hv]
    cases a with
    | probe => exact ⟨rfl, rfl⟩
    | charge n => exact ⟨rfl, by simp only [Nat.max_comm n 1, Bucket.view]⟩

variable {K : Type} [DecidableEq K]

def State.view (state : State K) (key : K) : Option Reference := (state.buckets.entries.get key).map Bucket.view

section View
variable {limiter : RateLimiter} {state : State K} {key : K}

theorem view_eq_none : state.view key = none ↔ state.buckets.entries.get key = none := by
  rw [State.view]
  rw [Option.map_eq_none_iff]

/-- An access acts on its own key as the reference bucket does. -/
theorem access_view_self (state : State K) (key : K) (now : Nat) (a : Access) (hr : limiter.rate ≠ 0) :
    (access limiter state now key a).1 = (Reference.access limiter now a (state.view key)).1 ∧
      (access limiter state now key a).2.view key =
        some (Reference.access limiter now a (state.view key)).2 := by
  have build {c : Bucket K} {r : Reference} (hu : c.updated = now) (hru : r.updated = now)
      (hb : c.balance = r.balance) : c.view = r := by
    cases r
    simp only [Bucket.view, Reference.mk.injEq]
    exact ⟨hb, hu.trans hru.symm⟩
  cases hk : state.buckets.entries.get key with
  | some b =>
    obtain ⟨ho, c, hc, hu, hb⟩ := access_get_self now a hr hk
    obtain ⟨hs, hsb⟩ := settle_view limiter (refill limiter b now) a
    have hv : state.view key = some b.view := by rw [State.view, hk]; rfl
    rw [hv, State.view, hc]
    exact ⟨ho.trans hs, congrArg some (build hu (Reference.access_updated ..) (hb.trans hsb))⟩
  | none =>
    obtain ⟨ho, c, hc, hu, hb⟩ := access_get_new now a hr hk
    obtain ⟨hs, hsb⟩ := settle_view limiter
      (⟨limiter.capacity, now, now, 0, key, false⟩ : Bucket K) a
    rw [view_eq_none.mpr hk, State.view, hc]
    exact ⟨ho.trans hs, congrArg some (build hu (Reference.access_updated ..) (hb.trans hsb))⟩

/-- A call that keeps the bucket and is no access of the key leaves its view, or
brings it up to date. -/
theorem perform_view_other (c : Timed K) (hr : limiter.rate ≠ 0)
    (hkept : state.buckets.entries.get key ≠ none → (perform limiter state c).2.buckets.entries.get key ≠ none)
    (hc : ∀ a, c.call.access? ≠ some (key, a)) :
    (perform limiter state c).2.view key = state.view key ∨
      (c.call = .sweepIdle ∧
        (perform limiter state c).2.view key = (state.view key).map (Reference.advance limiter · c.now)) := by
  have other (k : K) (a : Access) (hne : key ≠ k)
      (hkept : state.buckets.entries.get key ≠ none →
        (access limiter state c.now k a).2.buckets.entries.get key ≠ none) :
      (access limiter state c.now k a).2.view key = state.view key := by
    simp only [State.view]
    rcases access_get_other limiter state c.now a hne with he | hn
    · rw [he]
    · by_cases hs : state.buckets.entries.get key = none
      · rw [hs, hn]
      · exact absurd hn (hkept hs)
  cases c with
  | mk now call =>
    cases call with
    | probe k => exact .inl (other k .probe (fun he => hc .probe (by rw [he]; rfl)) hkept)
    | charge k n => exact .inl (other k (.charge n) (fun he => hc (.charge n) (by rw [he]; rfl)) hkept)
    | takeDebtForgivenEvictions => exact .inl rfl
    | sweepIdle =>
      refine .inr ⟨rfl, ?_⟩
      have hget := sweepIdle_get limiter state now hr key
      simp only [State.view]
      change ((sweepIdle limiter state now).2.buckets.entries.get key).map Bucket.view = _
      cases hk : state.buckets.entries.get key with
      | none => rw [hget, hk]; rfl
      | some b =>
        have hne : (sweepIdle limiter state now).2.buckets.entries.get key ≠ none := hkept (by rw [hk]; simp)
        rw [hget, hk, Option.map_some, Option.filter_some] at hne ⊢
        split at hne
        · next hidle => rw [if_pos hidle]; rfl
        · exact absurd rfl hne

end View

def outcomesFor (limiter : RateLimiter) (key : K) (state : State K) : List (Timed K) → List Outcome
  | [] => []
  | c :: cs =>
    (match c.call.access?, (perform limiter state c).1 with
      | some (k, _), .outcome o => if k = key then [o] else []
      | _, _ => []) ++ outcomesFor limiter key (perform limiter state c).2 cs

def accessesOf (key : K) (calls : List (Timed K)) : List (Nat × Access) :=
  calls.filterMap fun c => c.call.access?.bind fun a => if a.1 = key then some (c.now, a.2) else none

/-- The limiter's bucket is the reference bucket brought up to some later date. -/
def Tracks (limiter : RateLimiter) : Option Reference → Option Reference → Prop
  | none, none => True
  | some v, some r => r.balance ≤ limiter.capacity ∧ r.updated ≤ v.updated ∧ v = r.advance limiter v.updated
  | _, _ => False

variable {limiter : RateLimiter}

theorem perform_access (limiter : RateLimiter) {c : Timed K} {k : K} {a : Access}
    (h : c.call.access? = some (k, a)) (state : State K) :
    perform limiter state c = (.outcome (access limiter state c.now k a).1, (access limiter state c.now k a).2) := by
  cases c with
  | mk now call =>
    cases call with
    | probe j => cases h; rfl
    | charge j n => cases h; rfl
    | sweepIdle => cases h
    | takeDebtForgivenEvictions => cases h

theorem Tracks.access {v r : Option Reference} (h : Tracks limiter v r) {now : Nat} (a : Access)
    (hnow : ∀ w ∈ v, w.updated ≤ now) :
    Reference.access limiter now a v = Reference.access limiter now a r := by
  match v, r, h with
  | none, none, _ => rfl
  | some v, some r, ⟨_, hu, he⟩ =>
    have hadv : v.advance limiter now = r.advance limiter now := by
      conv_lhs => rw [he]
      exact Reference.advance_advance r hu (hnow v rfl)
    simp only [Reference.access, hadv]

theorem tracks_self {r : Reference} (h : r.balance ≤ limiter.capacity) :
    Tracks limiter (some r) (some r) :=
  ⟨h, le_rfl, (Reference.advance_self r h).symm⟩

theorem Tracks.advance {v r : Option Reference} (h : Tracks limiter v r) {now : Nat}
    (hnow : ∀ w ∈ v, w.updated ≤ now) : Tracks limiter (v.map (Reference.advance limiter · now)) r := by
  match v, r, h with
  | none, none, _ => trivial
  | some v, some r, ⟨hb, hu, he⟩ =>
    refine ⟨hb, hu.trans (hnow v rfl), ?_⟩
    conv_lhs => rw [he]
    exact Reference.advance_advance r hu (hnow v rfl)

/-- Along a run whose clock never goes back, a tracked bucket answers as the
reference does. -/
theorem outcomesFor_eq_of_tracks (hr : limiter.rate ≠ 0) {key : K} (calls : List (Timed K)) {state : State K}
    {r : Option Reference} (ht : Tracks limiter (state.view key) r) (hclock : NonDecreasing calls)
    (hlater : ∀ c ∈ calls, ∀ w ∈ state.view key, w.updated ≤ c.now) (hkept : Retained limiter key state calls) :
    outcomesFor limiter key state calls = Reference.outcomes limiter r (accessesOf key calls) := by
  induction calls generalizing state r with
  | nil => rfl
  | cons c calls ih =>
    obtain ⟨hfirst, hclock⟩ := List.pairwise_cons.mp hclock
    obtain ⟨hstep, hkept⟩ := hkept
    have hnow := hlater c List.mem_cons_self
    by_cases hown : ∃ a, c.call.access? = some (key, a)
    · obtain ⟨a, ha⟩ := hown
      obtain ⟨ho, hv⟩ := access_view_self state key c.now a hr
      rw [ht.access a hnow] at ho hv
      have hp := perform_access limiter ha state
      rw [hp] at hkept
      simp only [outcomesFor, accessesOf, List.filterMap_cons, ha, hp, Option.bind_some, if_true,
        Reference.outcomes, ho, List.singleton_append]
      congr 1
      refine ih ?_ hclock ?_ hkept
      · rw [hv]
        exact tracks_self (Reference.access_balance_le ..)
      · intro d hd w hw
        rw [hv] at hw
        cases hw
        rw [Reference.access_updated]
        exact hfirst d hd
    · have hother (a : Access) : c.call.access? ≠ some (key, a) := fun h => hown ⟨a, h⟩
      have hout : outcomesFor limiter key state (c :: calls) =
          outcomesFor limiter key (perform limiter state c).2 calls := by
        simp only [outcomesFor]
        split
        · next k a o hk _ =>
          rw [if_neg (fun he => hother a (by rw [hk, he])), List.nil_append]
        · rfl
      have hacc : accessesOf key (c :: calls) = accessesOf key calls := by
        simp only [accessesOf, List.filterMap_cons]
        cases hk : c.call.access? with
        | none => rfl
        | some p =>
          have hne : p.1 ≠ key := fun he => hother p.2 (by rw [hk, ← he])
          simp [hne]
      rw [hout, hacc]
      rcases perform_view_other c hr hstep hother with hv | ⟨_, hv⟩
      · refine ih (by rw [hv]; exact ht) hclock ?_ hkept
        intro d hd w hw
        rw [hv] at hw
        exact hlater d (List.mem_cons_of_mem _ hd) w hw
      · refine ih (by rw [hv]; exact ht.advance hnow) hclock ?_ hkept
        intro d hd w hw
        rw [hv] at hw
        obtain ⟨_, _, rfl⟩ := Option.map_eq_some_iff.mp hw
        exact hfirst d hd

/-- Whatever happens to other keys and however often the limiter is swept, the
callers of a key whose bucket is not evicted see the reference bucket. -/
theorem outcomesFor_eq_reference (limiter : RateLimiter) (key : K) (calls : List (Timed K))
    (hr : 0 < limiter.rate) (hclock : NonDecreasing calls) (hkept : Retained limiter key .empty calls) :
    outcomesFor limiter key .empty calls = Reference.outcomes limiter none (accessesOf key calls) := by
  have hview : (State.empty : State K).view key = none := rfl
  refine outcomesFor_eq_of_tracks hr.ne' calls (by rw [hview]; trivial) hclock ?_ hkept
  intro c _ w hw
  rw [hview] at hw
  cases hw

theorem outcomesFor_eq_reference_smallRun :
    outcomesFor (.withMaxBuckets 1 (by decide) 2) 1 .empty (smallRun.take 4) =
        Reference.outcomes (.withMaxBuckets 1 (by decide) 2) none (accessesOf 1 (smallRun.take 4)) ∧
      outcomesFor (.withMaxBuckets 1 (by decide) 2) 1 .empty (smallRun.take 4) = [.ok (), .error ⟨5⟩] := by
  refine ⟨outcomesFor_eq_reference _ 1 (smallRun.take 4) (by decide) (by unfold NonDecreasing; decide +kernel)
    ?_, by decide +kernel⟩
  simp only [smallRun, List.take, Retained]
  decide +kernel

end Srh.Domain.RateLimit
