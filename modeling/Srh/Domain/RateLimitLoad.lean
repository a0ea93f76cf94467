import Srh.Domain.RateLimitSweep
import Srh.Domain.RateLimitThroughput

/-! What a limiter that is swept lets through. A bucket that a sweep removes when it is
full is missed by nobody, so the account of a key goes on in the copy of the run that is
never swept. -/
namespace Srh.Domain.RateLimit
open Srh.Lib
variable {K : Type} [DecidableEq K] {limiter : RateLimiter}

def logFrom (limiter : RateLimiter) (state : State K) : List (Timed K) → List (Timed K × Reply)
  | [] => []
  | c :: cs => (c, (perform limiter state c).1) :: logFrom limiter (perform limiter state c).2 cs

theorem logFrom_append (state : State K) (calls more : List (Timed K)) :
    logFrom limiter state (calls ++ more) =
      logFrom limiter state calls ++ logFrom limiter (runFrom limiter state calls) more := by
  induction calls generalizing state with
  | nil => rfl
  | cons c calls ih => exact congrArg (List.cons _) (ih _)

/-- The unswept copy of a bucket is no younger than the run. -/
theorem Mirrors.updated_le {now : Nat} {v : Option Reference} {r : Reference} (h : Mirrors limiter now v (some r)) :
    r.updated ≤ now := by
  cases v with
  | none => exact h.1
  | some v => exact h.1.2.1.trans h.2

/-- The account of a key in the unswept copy, along the run that is swept. -/
theorem accounted_mirrored (hr : limiter.rate ≠ 0) {key : K} {keys : List K} (hlen : keys.length ≤ limiter.maxBuckets)
    (calls : List (Timed K)) {swept kept : State K} {now : Nat} {log : List (Timed K × Reply)}
    (hacc : Accounted limiter key (kept.view key) log) (hm : ∀ k, Mirrors limiter now (swept.view k) (kept.view k))
    (hstate : kept.OverKeys keys) (hwithin : OverKeys keys calls) (hclock : NonDecreasing calls)
    (hlater : ∀ c ∈ calls, now ≤ c.now) (hfull : SweepsFull limiter swept calls) :
    ∃ view, Accounted limiter key view (log ++ logFrom limiter swept calls) := by
  induction calls generalizing swept kept now log with
  | nil => exact ⟨kept.view key, by rwa [logFrom, List.append_nil]⟩
  | cons c calls ih =>
    obtain ⟨time, call⟩ := c
    obtain ⟨hfirst, hsorted⟩ := List.pairwise_cons.mp hclock
    obtain ⟨hin, hrest⟩ := List.forall_mem_cons.mp hwithin
    obtain ⟨hsweep, hfulls⟩ := hfull
    have hnow (k : K) : Mirrors limiter time (swept.view k) (kept.view k) := (hm k).mono (hlater _ List.mem_cons_self)
    rw [logFrom, List.append_cons]
    -- a call that is no access costs nothing and leaves the copy alone
    have other (hother : call.access? = none) :
        Accounted limiter key (kept.view key) (log ++ [(⟨time, call⟩, (perform limiter swept ⟨time, call⟩).1)]) := by
      apply hacc.other (admitted_other _ _) (.inl rfl)
      intro a ha
      rw [hother] at ha
      cases ha
    -- an access is made by the copy as well
    have own {k : K} {a : Access} (ha : call.access? = some (k, a)) :
        ∃ view, Accounted limiter key view (log ++ [(⟨time, call⟩, (perform limiter swept ⟨time, call⟩).1)] ++
          logFrom limiter (perform limiter swept ⟨time, call⟩).2 calls) := by
      obtain ⟨ho, hm, hstate'⟩ := mirrors_access hr hlen hnow hstate (hin k a ha) a
      have hp := perform_access limiter (c := ⟨time, call⟩) ha swept
      rw [hp] at hfulls ⊢
      refine ih ?_ hm hstate' hrest hsorted hfirst hfulls
      by_cases hk : k = key
      · subst hk
        obtain ⟨hout, hview⟩ := access_view_self kept k time a hr
        rw [hview]
        dsimp only
        rw [ho, hout]
        refine hacc.access (c := ⟨time, call⟩) ?_ ha
        intro r hv
        have hmk := hnow k
        rw [Option.mem_def.mp hv] at hmk
        exact hmk.updated_le
      · rw [access_view_other (not_atBound hlen hstate (hin k a ha)) time a (Ne.symm hk)]
        apply hacc.other (admitted_other _ _) (.inl rfl)
        intro b hb
        rw [ha] at hb
        cases hb
        exact hk rfl
    cases call with
    | sweepIdle => exact ih (other rfl) (mirrors_sweep hr hnow (hsweep rfl)) hstate hrest hsorted hfirst hfulls
    | takeDebtForgivenEvictions => exact ih (other rfl) hnow hstate hrest hsorted hfirst hfulls
    | probe k => exact own rfl
    | charge k n => exact own rfl

/-- Over at most as many keys as there may be buckets, and with charges that a bucket
repays within the idle time, sweeps let nothing through beyond the bound. -/
theorem bounded_of_small (hr : 0 < limiter.rate) (key : K) {keys : List K} (hlen : keys.length ≤ limiter.maxBuckets)
    {calls : List (Timed K)} (hwithin : OverKeys keys calls) (hclock : NonDecreasing calls)
    (hcharges : ∀ c ∈ calls, ∀ k n, c.call = .charge k n → (n : ℚ) + limiter.capacity ≤ 900 * limiter.rate) :
    Bounded limiter key (logFrom limiter .empty calls) := by
  have hempty (k : K) : (State.empty : State K).view k = none := rfl
  have hm (k : K) : Mirrors limiter 0 ((State.empty : State K).view k) ((State.empty : State K).view k) := by
    rw [hempty]
    trivial
  obtain ⟨view, hacc⟩ := accounted_mirrored hr.ne' hlen calls (accounted_empty limiter key) hm
    (fun k hk => absurd (hempty k) hk) hwithin hclock (fun _ _ => Nat.zero_le _) (sweepsFull_of_small hr hcharges hclock)
  rw [List.nil_append] at hacc
  exact hacc.within.bounded hr.ne'

end Srh.Domain.RateLimit
