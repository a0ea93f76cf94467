import Srh.Domain.RateLimitReference

/-! What an answer of the limiter promises its caller: a successful probe that
the charge to follow will be admitted, a rejection that waiting for Retry-After
is enough and waiting a second less is not. -/
namespace Srh.Domain.RateLimit
open Srh.Lib

private theorem call_eq_charge {K : Type} {call : Call K} {key : K} {n : Nat} (h : call.access? = some (key, .charge n)) :
    call = .charge key n := by
  cases call with
  | charge k m => cases h; rfl
  | probe | sweepIdle | takeDebtForgivenEvictions => cases h

variable {K : Type} [DecidableEq K] {limiter : RateLimiter}

def Uncharged (limiter : RateLimiter) (key : K) (state : State K) : List (Timed K) → Prop
  | [] => True
  | c :: cs =>
    (∀ n, c.call = .charge key n → (charge limiter state c.now key n).1 ≠ .ok ()) ∧
      Uncharged limiter key (perform limiter state c).2 cs

section Step
variable {state : State K} {key : K}

/-- What one call does to the view of one key. -/
theorem perform_view (state : State K) (key : K) (c : Timed K) (hr : limiter.rate ≠ 0) :
    (∃ a, c.call.access? = some (key, a) ∧
      (perform limiter state c).1 = .outcome (Reference.access limiter c.now a (state.view key)).1 ∧
      (perform limiter state c).2.view key = some (Reference.access limiter c.now a (state.view key)).2) ∨
    (∀ a, c.call.access? ≠ some (key, a)) ∧
      ((perform limiter state c).2.view key = none ∨
        (perform limiter state c).2.view key = state.view key ∨
        (perform limiter state c).2.view key = (state.view key).map (Reference.advance limiter · c.now)) := by
  by_cases hown : ∃ a, c.call.access? = some (key, a)
  · obtain ⟨a, ha⟩ := hown
    obtain ⟨ho, hv⟩ := access_view_self state key c.now a hr
    rw [perform_access limiter ha]
    exact .inl ⟨a, ha, congrArg Reply.outcome ho, hv⟩
  · have hother (a : Access) : c.call.access? ≠ some (key, a) := fun h => hown ⟨a, h⟩
    refine .inr ⟨hother, ?_⟩
    by_cases hgone : (perform limiter state c).2.buckets.entries.get key = none
    · exact .inl (view_eq_none.mpr hgone)
    · rcases perform_view_other c hr (fun _ => hgone) hother with hv | ⟨_, hv⟩
      · exact .inr (.inl hv)
      · exact .inr (.inr hv)

end Step

namespace Reference
variable {r : Reference}

def current (limiter : RateLimiter) (now : Nat) : Option Reference → Reference
  | none => fresh limiter now
  | some r => r.advance limiter now

theorem access_eq (now : Nat) (a : Access) (view : Option Reference) :
    access limiter now a view = (current limiter now view).spend limiter a := by
  cases view <;> rfl

private theorem advance_pos_iff (hr : limiter.rate ≠ 0) (now : Nat) :
    0 < (r.advance limiter now).balance ↔ 0 < r.balance + elapsedSecs now r.updated * limiter.rate := by
  simp only [advance, TokenBucket.refill, lt_min_iff, capacity_pos hr, and_true]

private theorem spend_of_nonpos (h : r.balance ≤ 0) (a : Access) :
    r.spend limiter a = (.error (limiter.exceeded r.balance), r) := if_pos h

private theorem spend_of_pos (h : 0 < r.balance) (a : Access) : (r.spend limiter a).1 = .ok () := by
  simp only [spend, if_neg (not_le.mpr h)]
  cases a <;> rfl

private theorem spend_probe (r : Reference) : (r.spend limiter .probe).2 = r := by
  simp only [spend]
  split <;> rfl

private theorem spend_eq_ok {a : Access} : (r.spend limiter a).1 = .ok () ↔ 0 < r.balance := by
  refine ⟨fun h => not_le.mp fun hn => ?_, fun h => spend_of_pos h a⟩
  rw [spend_of_nonpos hn] at h
  cases h

end Reference

/-- The rule for facts about the view of one key: refilling keeps them, and if
the call is an access of the key, what it leaves of the bucket has them. -/
theorem view_perform {state : State K} {key : K} {q : Reference → Prop} (hr : limiter.rate ≠ 0) (c : Timed K)
    (hadvance : ∀ r, q r → q (r.advance limiter c.now))
    (haccess : ∀ a, c.call.access? = some (key, a) →
      q ((Reference.current limiter c.now (state.view key)).spend limiter a).2)
    (h : ∀ r ∈ state.view key, q r) : ∀ r ∈ (perform limiter state c).2.view key, q r := by
  intro r hmem
  rcases perform_view state key c hr with ⟨a, ha, _, hv⟩ | ⟨_, hv | hv | hv⟩
  · rw [hv, Reference.access_eq] at hmem
    cases hmem
    exact haccess a ha
  · rw [hv] at hmem
    cases hmem
  · rw [hv] at hmem
    exact h r hmem
  · rw [hv] at hmem
    obtain ⟨w, hw, rfl⟩ := Option.map_eq_some_iff.mp hmem
    exact hadvance w (h w hw)

section Solvent
variable {state : State K} {key : K}

/-- The next access of the key will find a positive balance, or no bucket and so a full one. -/
def State.Solvent (state : State K) (key : K) : Prop := ∀ r ∈ state.view key, 0 < r.balance

private theorem advance_pos (hr : limiter.rate ≠ 0) {r : Reference} (h : 0 < r.balance) (now : Nat) :
    0 < (r.advance limiter now).balance :=
  (Reference.advance_pos_iff hr now).mpr
    (add_pos_of_pos_of_nonneg h (mul_nonneg (elapsedSecs_nonneg _ _) (Nat.cast_nonneg _)))

private theorem State.Solvent.current_pos (h : state.Solvent key) (hr : limiter.rate ≠ 0) (now : Nat) :
    0 < (Reference.current limiter now (state.view key)).balance := by
  cases hv : state.view key with
  | none => exact capacity_pos hr
  | some r => exact advance_pos hr (h r hv) now

private theorem State.Solvent.access_ok (h : state.Solvent key) (hr : limiter.rate ≠ 0) (now : Nat) (a : Access) :
    (access limiter state now key a).1 = .ok () := by
  rw [(access_view_self state key now a hr).1, Reference.access_eq]
  exact Reference.spend_of_pos (h.current_pos hr now) a

/-- Nothing but an admitted charge ends solvency: an eviction or a sweep at worst
restores the full bucket. -/
theorem State.Solvent.perform (h : state.Solvent key) (hr : limiter.rate ≠ 0) (c : Timed K)
    (hc : ∀ n, c.call = .charge key n → (charge limiter state c.now key n).1 ≠ .ok ()) :
    (perform limiter state c).2.Solvent key := by
  refine view_perform hr c (fun r hpos => advance_pos hr hpos c.now) ?_ h
  intro a ha
  cases a with
  | probe =>
    rw [Reference.spend_probe]
    exact h.current_pos hr c.now
  | charge n => exact absurd (h.access_ok hr c.now (.charge n)) (hc n (call_eq_charge ha))

private theorem State.Solvent.runFrom (h : state.Solvent key) (hr : limiter.rate ≠ 0) (calls : List (Timed K))
    (hun : Uncharged limiter key state calls) : (runFrom limiter state calls).Solvent key := by
  induction calls generalizing state with
  | nil => exact h
  | cons c calls ih => exact ih (h.perform hr c hun.1) hun.2

private theorem solvent_of_probe (hr : limiter.rate ≠ 0) {now : Nat} (h : (probe limiter state now key).1 = .ok ()) :
    (probe limiter state now key).2.Solvent key := by
  obtain ⟨ho, hv⟩ := access_view_self state key now .probe hr
  rw [Reference.access_eq] at ho hv
  intro r hmem
  rw [probe, hv, Reference.spend_probe] at hmem
  cases hmem
  exact Reference.spend_eq_ok.mp (ho.symm.trans h)

end Solvent

/-- A successful probe is honoured: unless a charge of the key is admitted in
between, the next one is, whatever else happens to the limiter and to the bucket
of the key, at whatever times. -/
theorem charge_ok_of_probe (limiter : RateLimiter) (state : State K) (key : K) (now later n : Nat)
    (between : List (Timed K)) (hprobe : (probe limiter state now key).1 = .ok ())
    (hun : Uncharged limiter key (probe limiter state now key).2 between) :
    (charge limiter (runFrom limiter (probe limiter state now key).2 between) later key n).1 = .ok () := by
  by_cases hr : limiter.rate = 0
  · rw [charge, access, if_pos hr]
  · exact ((solvent_of_probe hr hprobe).runFrom hr between hun).access_ok hr later (.charge n)

/-- The bound is one bucket: between the probe of key 1 and its charge, a probe
of key 2 evicts its bucket. -/
theorem charge_ok_of_probe_evicted :
    (runFrom (.withMaxBuckets 1 (by decide) 1) .empty
      ([⟨0, .probe 1⟩, ⟨0, .probe 2⟩] : List (Timed Nat))).buckets.entries.keys = [2] ∧
    (charge (.withMaxBuckets 1 (by decide) 1) (runFrom (.withMaxBuckets 1 (by decide) 1)
      (probe (.withMaxBuckets 1 (by decide) 1) (.empty : State Nat) 0 1).2 [⟨0, .probe 2⟩]) 0 1 5).1 = .ok () :=
  ⟨by decide +kernel, charge_ok_of_probe _ _ 1 0 0 5 [⟨0, .probe 2⟩] (by decide +kernel) ⟨by simp, trivial⟩⟩

section Debt

/-- Every balance is above the debt that a charge of the given size can leave. -/
def State.DebtBelow (state : State K) (bound : Nat) : Prop :=
  ∀ key, ∀ r ∈ state.view key, -((max bound 1 : Nat) : ℚ) < r.balance

private theorem neg_bound_lt_of_nonneg {bound : Nat} {balance : ℚ} (h : 0 ≤ balance) :
    -((max bound 1 : Nat) : ℚ) < balance := by
  have : (0 : ℚ) < (max bound 1 : Nat) := by
    rw [Nat.cast_pos]
    omega
  linarith

private theorem advance_above {bound : Nat} {r : Reference} (h : -((max bound 1 : Nat) : ℚ) < r.balance) (now : Nat) :
    -((max bound 1 : Nat) : ℚ) < (r.advance limiter now).balance := by
  refine lt_min ?_ (neg_bound_lt_of_nonneg (capacity_nonneg limiter))
  exact lt_add_of_lt_of_nonneg h (mul_nonneg (elapsedSecs_nonneg _ _) (Nat.cast_nonneg _))

private theorem spend_above {bound : Nat} {r : Reference} (h : -((max bound 1 : Nat) : ℚ) < r.balance) {a : Access}
    (ha : ∀ n, a = .charge n → n ≤ bound) : -((max bound 1 : Nat) : ℚ) < (r.spend limiter a).2.balance := by
  by_cases hn : r.balance ≤ 0
  · rw [Reference.spend_of_nonpos hn]
    exact h
  · cases a with
    | probe =>
      rw [Reference.spend_probe]
      exact h
    | charge n =>
      -- the charge started from a positive balance
      have hle : ((max 1 n : Nat) : ℚ) ≤ (max bound 1 : Nat) := by
        rw [Nat.cast_le]
        have := ha n rfl
        omega
      simp only [Reference.spend, if_neg hn]
      linarith

theorem State.DebtBelow.perform {state : State K} {bound : Nat} (h : state.DebtBelow bound) (hr : limiter.rate ≠ 0)
    (c : Timed K) (hc : ∀ k n, c.call = .charge k n → n ≤ bound) : (perform limiter state c).2.DebtBelow bound := by
  intro key
  refine view_perform hr c (fun r habove => advance_above habove c.now) ?_ (h key)
  intro a ha
  refine spend_above ?_ ?_
  · cases hw : state.view key with
    | none => exact neg_bound_lt_of_nonneg (capacity_nonneg limiter)
    | some w => exact advance_above (h key w hw) c.now
  · rintro n rfl
    exact hc key n (call_eq_charge ha)

private theorem State.DebtBelow.runFrom {state : State K} {bound : Nat} (h : state.DebtBelow bound) (hr : limiter.rate ≠ 0)
    (calls : List (Timed K)) (hc : ∀ c ∈ calls, ∀ k n, c.call = .charge k n → n ≤ bound) :
    (runFrom limiter state calls).DebtBelow bound := by
  induction calls generalizing state with
  | nil => exact h
  | cons c calls ih =>
    obtain ⟨hfirst, hrest⟩ := List.forall_mem_cons.mp hc
    exact ih (h.perform hr c hfirst) hrest

end Debt

section Wait

/-- The advice is the quotient rounded up, and at least one second. -/
private theorem advice_spec {q : ℚ} {s : Nat} (hfits : ⌈q⌉ ≤ 2 ^ 64 - 1)
    (hs : min (max ⌈q⌉ 1).toNat (2 ^ 64 - 1) = s) :
    (s : ℤ) = max ⌈q⌉ 1 ∧ q ≤ s ∧ (2 ≤ s → (s : ℚ) < q + 1) := by
  have hz : (s : ℤ) = max ⌈q⌉ 1 := by omega
  refine ⟨hz, ?_, fun htwo => ?_⟩
  · have hceil : ((⌈q⌉ : ℤ) : ℚ) ≤ ((s : ℤ) : ℚ) := Int.cast_le.mpr (by omega)
    exact (Int.le_ceil q).trans hceil
  · have hceil : (s : ℤ) = ⌈q⌉ := by omega
    have := Int.ceil_lt_add_one q
    rwa [← hceil] at this

/-- The advice to a balance that is not positive: after that many seconds the
debt is paid, and, from two seconds on, a second earlier it is not. -/
theorem exceeded_spec (hr : limiter.rate ≠ 0) {bound : Nat} (hb : bound < 2 ^ 64) {balance : ℚ} (hle : balance ≤ 0)
    (hlt : -((max bound 1 : Nat) : ℚ) < balance) :
    1 ≤ (limiter.exceeded balance).retryAfterSecs ∧
    ((limiter.exceeded balance).retryAfterSecs : ℤ) ≤ max 1 ⌈(bound : ℚ) / limiter.rate⌉ ∧
    0 ≤ balance + (limiter.exceeded balance).retryAfterSecs * limiter.rate ∧
    (2 ≤ (limiter.exceeded balance).retryAfterSecs →
      balance + ((limiter.exceeded balance).retryAfterSecs - 1 : Nat) * limiter.rate < 0) := by
  have hrate : (1 : ℚ) ≤ limiter.rate := by
    rw [Nat.one_le_cast]
    omega
  have hpos : (0 : ℚ) < limiter.rate := by linarith
  have hmax : max (-balance) 0 = -balance := max_eq_left (by linarith)
  simp only [RateLimiter.exceeded, hmax]
  generalize hq : -balance / limiter.rate = q
  have hbal : balance = -(q * limiter.rate) := by
    rw [← hq]
    field_simp
  have hqlt : q < (max bound 1 : Nat) := by
    rw [← hq, div_lt_iff₀ hpos]
    nlinarith
  -- the advice fits its type, so it is not cut off
  have hfits : ⌈q⌉ ≤ 2 ^ 64 - 1 := by
    have hmax : ((max bound 1 : Nat) : ℚ) ≤ ((2 ^ 64 - 1 : ℤ) : ℚ) := by
      exact_mod_cast (show ((max bound 1 : Nat) : ℤ) ≤ 2 ^ 64 - 1 by omega)
    exact Int.ceil_le.mpr (hqlt.le.trans hmax)
  generalize hs : min (max ⌈q⌉ 1).toNat (2 ^ 64 - 1) = s
  obtain ⟨hz, hge, hlast⟩ := advice_spec hfits hs
  refine ⟨by omega, ?_, ?_, ?_⟩
  · rw [hz]
    refine max_le ?_ (le_max_left _ _)
    rcases Nat.eq_zero_or_pos bound with rfl | hb
    · refine (Int.ceil_le.mpr ?_).trans (le_max_left _ _)
      simpa using hqlt.le
    · refine (Int.ceil_mono ?_).trans (le_max_right _ _)
      rw [← hq]
      refine div_le_div_of_nonneg_right ?_ hpos.le
      rw [max_eq_left (show 1 ≤ bound from hb)] at hlt
      linarith
  · rw [hbal]
    nlinarith
  · intro htwo
    have hlt := hlast htwo
    rw [hbal, Nat.cast_sub (by omega), Nat.cast_one]
    nlinarith

private theorem lt_elapsedSecs {secs earlier now : Nat} (h : earlier + secs * nanosPerSec < now) :
    (secs : ℚ) < elapsedSecs now earlier := by
  rw [elapsedSecs, lt_div_iff₀ (by rw [nanosPerSec]; norm_num), ← Nat.cast_mul, Nat.cast_lt]
  omega

private theorem elapsedSecs_le {secs earlier now : Nat} (h : now ≤ earlier + secs * nanosPerSec) :
    elapsedSecs now earlier ≤ secs := by
  rw [elapsedSecs, div_le_iff₀ (by rw [nanosPerSec]; norm_num), ← Nat.cast_mul, Nat.cast_le]
  omega

/-- An access that is no admitted charge leaves the bucket it was settled against. -/
private theorem spend_uncharged {r : Reference} {a : Access}
    (h : ∀ n, a = .charge n → (r.spend limiter a).1 ≠ .ok ()) : (r.spend limiter a).2 = r := by
  cases a with
  | probe => exact Reference.spend_probe r
  | charge n =>
    have hn : r.balance ≤ 0 := not_lt.mp fun hpos => h n rfl (Reference.spend_of_pos hpos _)
    rw [Reference.spend_of_nonpos hn]

/-- A bucket that is neither evicted nor charged stays what it was, brought up to date. -/
theorem tracks_runFrom (hr : limiter.rate ≠ 0) {key : K} {r : Reference} (last : Nat) (calls : List (Timed K))
    {state : State K} (ht : Tracks limiter (state.view key) (some r)) (hclock : NonDecreasing calls)
    (hlast : ∀ c ∈ calls, c.now ≤ last)
    (hlater : ∀ w ∈ state.view key, w.updated ≤ last ∧ ∀ c ∈ calls, w.updated ≤ c.now)
    (hkept : Retained limiter key state calls) (hun : Uncharged limiter key state calls) :
    Tracks limiter ((runFrom limiter state calls).view key) (some r) ∧
      ∀ w ∈ (runFrom limiter state calls).view key, w.updated ≤ last := by
  induction calls generalizing state with
  | nil => exact ⟨ht, fun w hw => (hlater w hw).1⟩
  | cons c calls ih =>
    obtain ⟨hfirst, hclock⟩ := List.pairwise_cons.mp hclock
    obtain ⟨hnow, hlast⟩ := List.forall_mem_cons.mp hlast
    have hadv := ht.advance fun w hw => (hlater w hw).2 c List.mem_cons_self
    -- a view that this call brought up to date is as old as the call
    have updated {w : Reference} (hv : (perform limiter state c).2.view key = some (w.advance limiter c.now)) :
        ∀ u ∈ (perform limiter state c).2.view key, u.updated ≤ last ∧ ∀ d ∈ calls, u.updated ≤ d.now := by
      intro u hu
      rw [hv] at hu
      cases hu
      exact ⟨hnow, hfirst⟩
    cases hw : state.view key with
    | none =>
      rw [hw] at ht
      exact ht.elim
    | some w =>
      rw [hw, Option.map_some] at hadv
      rcases perform_view state key c hr with ⟨a, ha, ho, hv⟩ | ⟨hother, _⟩
      · rw [hw, Reference.access_eq] at hv ho
        have hsame : ((w.advance limiter c.now).spend limiter a).2 = w.advance limiter c.now := by
          refine spend_uncharged ?_
          rintro n rfl hok
          refine hun.1 n (call_eq_charge ha) ?_
          rw [perform_access limiter ha] at ho
          exact (Reply.outcome.inj ho).trans hok
        have hv : (perform limiter state c).2.view key = some (w.advance limiter c.now) :=
          hv.trans (congrArg some hsame)
        exact ih (by rw [hv]; exact hadv) hclock hlast (updated hv) hkept.2 hun.2
      · rcases perform_view_other c hr hkept.1 hother with hv | ⟨_, hv⟩
        · refine ih (by rw [hv]; exact ht) hclock hlast ?_ hkept.2 hun.2
          intro u hu
          rw [hv] at hu
          exact ⟨(hlater u hu).1, fun d hd => (hlater u hu).2 d (List.mem_cons_of_mem _ hd)⟩
        · rw [hw, Option.map_some] at hv
          exact ih (by rw [hv]; exact hadv) hclock hlast (updated hv) hkept.2 hun.2

/-- A rejected access finds a bucket whose balance is not positive and leaves it
there, brought up to date. -/
theorem rejected_view (hr : limiter.rate ≠ 0) {state : State K} {key : K} {now : Nat} {a : Access}
    {e : RateLimitExceeded} (h : (access limiter state now key a).1 = .error e) :
    ∃ w ∈ state.view key, (w.advance limiter now).balance ≤ 0 ∧
      e = limiter.exceeded (w.advance limiter now).balance ∧
      (access limiter state now key a).2.view key = some (w.advance limiter now) := by
  obtain ⟨hout, hview⟩ := access_view_self state key now a hr
  rw [Reference.access_eq] at hout hview
  rw [h] at hout
  have hnonpos : (Reference.current limiter now (state.view key)).balance ≤ 0 := by
    by_contra hpos
    rw [Reference.spend_of_pos (not_le.mp hpos)] at hout
    cases hout
  rw [Reference.spend_of_nonpos hnonpos] at hout hview
  cases hw : state.view key with
  | none =>
    rw [hw] at hnonpos
    exact absurd hnonpos (not_le.mpr (capacity_pos hr))
  | some w =>
    rw [hw] at hnonpos hout hview
    exact ⟨w, rfl, hnonpos, Except.error.inj hout, hview⟩

/-- Whatever happens in between, the next access settles the bucket that was there, refilled. -/
theorem access_after (hr : limiter.rate ≠ 0) {state : State K} {key : K} {r : Reference} {between : List (Timed K)}
    {later : Nat} (hview : state.view key = some r) (hcap : r.balance ≤ limiter.capacity)
    (hclock : NonDecreasing between) (hafter : ∀ d ∈ between, r.updated ≤ d.now) (hle : r.updated ≤ later)
    (hlast : ∀ d ∈ between, d.now ≤ later) (hkept : Retained limiter key state between)
    (hun : Uncharged limiter key state between) (a : Access) :
    (access limiter (runFrom limiter state between) later key a).1 = ((r.advance limiter later).spend limiter a).1 := by
  have htracks : Tracks limiter (state.view key) (some r) := by
    rw [hview]
    exact tracks_self hcap
  have hlater : ∀ w ∈ state.view key, w.updated ≤ later ∧ ∀ d ∈ between, w.updated ≤ d.now := by
    intro w hw
    rw [hview] at hw
    cases hw
    exact ⟨hle, hafter⟩
  obtain ⟨ht, hu⟩ := tracks_runFrom hr later between htracks hclock hlast hlater hkept hun
  rw [(access_view_self _ key later a hr).1, ht.access a hu]
  rfl

end Wait

/-- The Retry-After of the limiter. A call of the key is rejected with s, and the
key is neither evicted nor charged in between. Then s is at least one second and
at most what the largest charge allows; every access of the key more than s
seconds later is admitted; and from two seconds on, every access at most s - 1
seconds later is rejected. -/
theorem access_retryAfter_tight (limiter : RateLimiter) (bound : Nat) (before between : List (Timed K)) (key : K)
    (c : Timed K) (a : Access) (s : Nat) (hbound : bound < 2 ^ 64)
    (hcharges : ∀ d ∈ before, ∀ k n, d.call = .charge k n → n ≤ bound)
    (hclock : NonDecreasing (before ++ c :: between)) (hc : c.call.access? = some (key, a))
    (hrejected : (perform limiter (run limiter before) c).1 = .outcome (.error ⟨s⟩))
    (hkept : Retained limiter key (perform limiter (run limiter before) c).2 between)
    (hun : Uncharged limiter key (perform limiter (run limiter before) c).2 between) :
    1 ≤ s ∧ (s : ℤ) ≤ max 1 ⌈(bound : ℚ) / limiter.rate⌉ ∧
    ∀ later a', (∀ d ∈ c :: between, d.now ≤ later) →
      (c.now + s * nanosPerSec < later →
        (access limiter (runFrom limiter (perform limiter (run limiter before) c).2 between) later key a').1 = .ok ()) ∧
      (2 ≤ s → later ≤ c.now + (s - 1) * nanosPerSec → ∃ e,
        (access limiter (runFrom limiter (perform limiter (run limiter before) c).2 between) later key a').1 =
          .error e) := by
  rw [perform_access limiter hc] at hrejected hkept hun ⊢
  have hr : limiter.rate ≠ 0 := by
    intro hz
    rw [access, if_pos hz] at hrejected
    cases hrejected
  have hdebt : (run limiter before).DebtBelow bound := by
    refine State.DebtBelow.runFrom ?_ hr before hcharges
    intro k r hmem
    cases hmem
  obtain ⟨w, hw, hnonpos, hs, hview⟩ := rejected_view hr (Reply.outcome.inj hrejected)
  generalize hadv : w.advance limiter c.now = r at hnonpos hs hview
  have hupdated : r.updated = c.now := by rw [← hadv]; rfl
  have habove : -((max bound 1 : Nat) : ℚ) < r.balance := by
    rw [← hadv]
    exact advance_above (hdebt key w hw) c.now
  obtain ⟨hone, hmost, henough, hshort⟩ := exceeded_spec hr hbound hnonpos habove
  rw [← hs] at hone hmost henough hshort
  refine ⟨hone, hmost, ?_⟩
  intro later a' hlater
  obtain ⟨hfirst, hrest⟩ := List.forall_mem_cons.mp hlater
  obtain ⟨hafter, hclock⟩ := List.pairwise_cons.mp (List.pairwise_append.mp hclock).2.1
  have hcap : r.balance ≤ limiter.capacity := hnonpos.trans (capacity_nonneg limiter)
  rw [← hupdated] at hafter hfirst
  rw [access_after hr hview hcap hclock hafter hfirst hrest hkept hun a']
  have hpos : 0 < (r.advance limiter later).balance ↔ _ := Reference.advance_pos_iff hr later
  rw [hupdated] at hpos
  have hrate : (0 : ℚ) < limiter.rate := Nat.cast_pos.mpr (Nat.pos_of_ne_zero hr)
  constructor
  · intro hlong
    refine Reference.spend_of_pos (hpos.mpr ?_) a'
    have := mul_lt_mul_of_pos_right (lt_elapsedSecs hlong) hrate
    linarith
  · intro htwo hsoon
    have hneg : (r.advance limiter later).balance ≤ 0 := by
      refine not_lt.mp fun h => ?_
      have := mul_le_mul_of_nonneg_right (elapsedSecs_le hsoon) hrate.le
      have := hshort htwo
      linarith [hpos.mp h]
    exact ⟨_, by rw [Reference.spend_of_nonpos hneg]⟩

/-- A charge of five commands at rate one leaves a debt of three: the probe after
it is told three seconds, the retry after one second changes nothing, and just
after the third second the key is admitted. -/
theorem access_retryAfter_tight_oversized :
    (probe (.withMaxBuckets 1 (by decide) 2) (run (.withMaxBuckets 1 (by decide) 2) [⟨0, .charge 1 5⟩]) 0 1).1 =
      .error ⟨3⟩ ∧
    (access (.withMaxBuckets 1 (by decide) 2) (runFrom (.withMaxBuckets 1 (by decide) 2)
      (perform (.withMaxBuckets 1 (by decide) 2) (run (.withMaxBuckets 1 (by decide) 2) [⟨0, .charge 1 5⟩])
        (⟨0, .probe 1⟩ : Timed Nat)).2 [⟨nanosPerSec, .probe 1⟩]) (3 * nanosPerSec + 1) 1 .probe).1 = .ok () :=
  have hrejected : (probe (.withMaxBuckets 1 (by decide) 2)
      (run (.withMaxBuckets 1 (by decide) 2) [⟨0, .charge 1 5⟩]) 0 1).1 = .error ⟨3⟩ := by decide +kernel
  ⟨hrejected, ((access_retryAfter_tight (.withMaxBuckets 1 (by decide) 2) 5 [⟨0, .charge 1 5⟩]
    [⟨nanosPerSec, .probe 1⟩] 1 ⟨0, .probe 1⟩ .probe 3 (by decide) (by simp) (by unfold NonDecreasing; decide +kernel)
    rfl (congrArg Reply.outcome hrejected) ⟨by decide +kernel, trivial⟩ ⟨by simp, trivial⟩).2.2
    (3 * nanosPerSec + 1) .probe (by simp [nanosPerSec])).1 (by decide)⟩

end Srh.Domain.RateLimit
