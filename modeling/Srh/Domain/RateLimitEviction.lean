import Srh.Lib.Machine
import Srh.Domain.RateLimitReference

/-! Hard-bound evictions and the debts they forgive. The indices file a bucket by
its balance when it was last touched, while debt is repaid by waiting; here the
choice of the victim is compared with the balances at the time of the eviction. -/
namespace Srh.Domain.RateLimit
open Srh.Lib

section Order
variable {K : Type} {history : List (K × Nat)} {key : K}

private theorem LastAt.unique {i j t u : Nat} (h : LastAt history key i t) (h' : LastAt history key j u) : i = j := by
  rcases Nat.lt_trichotomy i j with hlt | heq | hgt
  · exact absurd h'.1 (h.2 j u hlt)
  · exact heq
  · exact absurd h.1 (h'.2 i t hgt)

end Order

section LiveDebt
variable {K : Type} {limiter : RateLimiter}

/-- The bucket owes commands even when it is refilled up to the given time. -/
def LiveDebt (limiter : RateLimiter) (now : Nat) (b : Bucket K) : Prop := (refill limiter b now).balance < 0

instance (now : Nat) (b : Bucket K) : Decidable (LiveDebt limiter now b) := inferInstanceAs (Decidable (_ < _))

/-- Waiting only ever repays: a live debt was a debt when it was written. -/
theorem LiveDebt.balance_neg {now : Nat} {b : Bucket K} (h : LiveDebt limiter now b) : b.balance < 0 :=
  not_le.mp fun h0 => absurd h (not_lt.mpr (refill_balance_nonneg limiter b now h0))

private theorem accesses_concat (calls : List (Timed K)) (c : Timed K) :
    accesses (calls ++ [c]) = accesses calls ++ accesses [c] := by
  simp [accesses]

end LiveDebt

variable {K : Type} [DecidableEq K] {limiter : RateLimiter}

def LeastRecent (history : List (K × Nat)) (buckets : Buckets K) (key : K) : Prop :=
  ∃ i t, LastAt history key i t ∧
    ∀ j b, buckets.entries.get j = some b → ∀ i' t', LastAt history j i' t' → i ≤ i'

def AtBound (limiter : RateLimiter) (state : State K) (key : K) : Prop :=
  limiter.rate ≠ 0 ∧ state.buckets.entries.get key = none ∧ limiter.maxBuckets ≤ state.buckets.entries.len

def AllIndebted (buckets : Buckets K) : Prop := ∀ k b, buckets.entries.get k = some b → b.balance < 0

section Index
variable {history : List (K × Nat)} {buckets : Buckets K}

private theorem Indexed.leastRecent_iff (h : Indexed history buckets) {key : K} {b : Bucket K}
    (hk : buckets.entries.get key = some b) :
    LeastRecent history buckets key ↔ ∀ j c, buckets.entries.get j = some c → b.order ≤ c.order := by
  have hb := h.last key b hk
  constructor
  · rintro ⟨i, t, hi, hmin⟩ j c hj
    rw [← hi.unique hb]
    exact hmin j c hj _ _ (h.last j c hj)
  · intro hmin
    refine ⟨b.order, b.lastAccess, hb, fun j c hj i' t' hi' => ?_⟩
    rw [hi'.unique (h.last j c hj)]
    exact hmin j c hj

private theorem Indexed.leastRecent_unique (h : Indexed history buckets) {k j : K} {b c : Bucket K}
    (hk : buckets.entries.get k = some b) (hj : buckets.entries.get j = some c)
    (hleast : LeastRecent history buckets k) (hleast' : LeastRecent history buckets j) : k = j :=
  h.order_inj hk hj (le_antisymm ((h.leastRecent_iff hk).mp hleast j c hj) ((h.leastRecent_iff hj).mp hleast' k b hk))

end Index

/-- What an access at the hard bound does: one bucket goes, and it is counted
exactly if all balances were last written negative, in which case it is the
least recently accessed one. -/
theorem access_at_bound {history : List (K × Nat)} {state : State K} (h : Indexed history state.buckets) {key : K}
    (hb : AtBound limiter state key) (now : Nat) (a : Access) :
    ∃ victim b, state.buckets.entries.get victim = some b ∧
      (∀ j, j ≠ key → (access limiter state now key a).2.buckets.entries.get j =
        if j = victim then none else state.buckets.entries.get j) ∧
      (access limiter state now key a).2.debtForgivenEvictions =
        (if b.balance < 0 then (state.debtForgivenEvictions + 1) % 2 ^ 64 else state.debtForgivenEvictions) ∧
      (b.balance < 0 → AllIndebted state.buckets ∧ LeastRecent history state.buckets victim) ∧
      (AllIndebted state.buckets → b.balance < 0) := by
  obtain ⟨hr, hnone, hfull⟩ := hb
  have hpos : 0 < state.buckets.entries.keys.length := limiter.maxBuckets_pos.trans_le hfull
  obtain ⟨c, hc⟩ := FiniteMap.mem_keys.mp (List.getElem_mem hpos)
  obtain ⟨victim, b, hv, he, hmin⟩ := evictOne_eq h hc
  have hflag : b.indebted = true ↔ b.balance < 0 := h.indebted_iff victim b hv
  refine ⟨victim, b, hv, ?_, ?_, ?_, fun hall => hall victim b hv⟩
  · intro j hj
    rw [access, if_neg hr, hnone]
    simp only [if_pos hfull, admitNew, FiniteMap.get_insert, if_neg hj, he, FiniteMap.get_remove]
  · rw [access, if_neg hr, hnone]
    simp only [if_pos hfull, he]
    by_cases hneg : b.balance < 0
    · rw [if_pos (hflag.mpr hneg), if_pos hneg]
    · rw [if_neg (fun hi => hneg (hflag.mp hi)), if_neg hneg]
  · intro hneg
    have hi := hflag.mpr hneg
    have hall (j : K) (d : Bucket K) (hj : state.buckets.entries.get j = some d) : d.indebted = true :=
      (hmin j d hj).1 hi
    refine ⟨fun j d hj => (h.indebted_iff j d hj).mp (hall j d hj), (h.leastRecent_iff hv).mpr ?_⟩
    intro j d hj
    exact (hmin j d hj).2 ((hall j d hj).trans hi.symm)

/-- An access that need not make room removes nothing and counts nothing. -/
theorem access_below_bound {state : State K} {key : K} (hb : ¬ AtBound limiter state key) (now : Nat) (a : Access) :
    (∀ j, state.buckets.entries.get j ≠ none → (access limiter state now key a).2.buckets.entries.get j ≠ none) ∧
      (access limiter state now key a).2.debtForgivenEvictions = state.debtForgivenEvictions := by
  rw [access]
  by_cases hr : limiter.rate = 0
  · rw [if_pos hr]
    exact ⟨fun _ hj => hj, rfl⟩
  · rw [if_neg hr]
    cases hk : state.buckets.entries.get key with
    | some b =>
      refine ⟨fun j hj => ?_, rfl⟩
      simp only [touch, FiniteMap.get_insert]
      split
      · simp
      · exact hj
    | none =>
      have hroom : ¬ limiter.maxBuckets ≤ state.buckets.entries.len := fun hfull => hb ⟨hr, hk, hfull⟩
      simp only [if_neg hroom]
      refine ⟨fun j hj => ?_, rfl⟩
      simp only [admitNew, FiniteMap.get_insert]
      split
      · simp
      · exact hj

/-- All balances were last written negative and the oldest of these debts is
live, but another has been repaid by waiting. -/
def RepaidUnnoticed (limiter : RateLimiter) (history : List (K × Nat)) (buckets : Buckets K) (now : Nat) : Prop :=
  AllIndebted buckets ∧
    (∃ k b, buckets.entries.get k = some b ∧ LeastRecent history buckets k ∧ LiveDebt limiter now b) ∧
    ∃ k b, buckets.entries.get k = some b ∧ ¬ LiveDebt limiter now b

/-- An access at the given time evicts a bucket with a live debt only if all
retained debts are live and this one is the least recently accessed. -/
def ForgivesRightly (limiter : RateLimiter) (history : List (K × Nat)) (state : State K) (now : Nat) (key : K)
    (a : Access) : Prop :=
  ∀ victim b, state.buckets.entries.get victim = some b →
    (access limiter state now key a).2.buckets.entries.get victim = none → LiveDebt limiter now b →
    (∀ j c, state.buckets.entries.get j = some c → LiveDebt limiter now c) ∧
      LeastRecent history state.buckets victim

/-- When an access at the hard bound forgives a live debt, all retained debts are
live and the forgiven one is the least recently accessed, except where a repaid
debt is still filed as one. -/
theorem live_debt_forgiven_iff (limiter : RateLimiter) (calls : List (Timed K)) (key : K) (now : Nat) (a : Access)
    (hcount : (accesses calls).length < 2 ^ 64) (hb : AtBound limiter (run limiter calls) key) :
    ForgivesRightly limiter (accesses calls) (run limiter calls) now key a ↔
      ¬ RepaidUnnoticed limiter (accesses calls) (run limiter calls).buckets now := by
  obtain ⟨h, _⟩ := indexed_run limiter calls hcount
  obtain ⟨victim, b, hv, hget, _, hneg, hall⟩ := access_at_bound h hb now a
  have hremoved (j : K) (c : Bucket K) (hj : (run limiter calls).buckets.entries.get j = some c) :
      (access limiter (run limiter calls) now key a).2.buckets.entries.get j = none ↔ j = victim := by
    have hne : j ≠ key := by
      rintro rfl
      rw [hb.2.1] at hj
      cases hj
    rw [hget j hne]
    by_cases he : j = victim
    · simp [he]
    · simp [he, hj]
  constructor
  · rintro hprop ⟨hindebted, ⟨k, c, hk, hleast, hlive⟩, j, d, hj, hrepaid⟩
    -- both are least recent, so the live debt is the victim's
    have hsame : k = victim := h.leastRecent_unique hk hv hleast (hneg (hall hindebted)).2
    exact hrepaid ((hprop k c hk ((hremoved k c hk).mpr hsame) hlive).1 j d hj)
  · intro hnot k c hk hgone hlive
    obtain rfl := (hremoved k c hk).mp hgone
    rw [hk] at hv
    cases hv
    obtain ⟨hindebted, hleast⟩ := hneg hlive.balance_neg
    refine ⟨fun j d hj => ?_, hleast⟩
    by_contra hrepaid
    exact hnot ⟨hindebted, ⟨k, _, hk, hleast, hlive⟩, j, d, hj, hrepaid⟩

def twoDebtors : List (Timed Nat) := [⟨0, .charge 1 1000⟩, ⟨0, .charge 2 3⟩]

theorem live_debt_forgiven_iff_twoDebtors :
    AtBound (.withMaxBuckets 1 (by decide) 2) (run (.withMaxBuckets 1 (by decide) 2) twoDebtors) 3 ∧
    (ForgivesRightly (.withMaxBuckets 1 (by decide) 2) (accesses twoDebtors)
      (run (.withMaxBuckets 1 (by decide) 2) twoDebtors) 0 3 .probe ↔
        ¬ RepaidUnnoticed (.withMaxBuckets 1 (by decide) 2) (accesses twoDebtors)
          (run (.withMaxBuckets 1 (by decide) 2) twoDebtors).buckets 0) :=
  have hb : AtBound (.withMaxBuckets 1 (by decide) 2) (run (.withMaxBuckets 1 (by decide) 2) twoDebtors) 3 :=
    ⟨by decide, by decide +kernel, by decide +kernel⟩
  ⟨hb, live_debt_forgiven_iff _ twoDebtors 3 0 .probe (by decide) hb⟩

/-- After ten seconds the second debt is repaid, but the first is forgiven. -/
theorem live_debt_forgiven_before_repaid :
    AtBound (.withMaxBuckets 1 (by decide) 2) (run (.withMaxBuckets 1 (by decide) 2) twoDebtors) 3 ∧
    ¬ ForgivesRightly (.withMaxBuckets 1 (by decide) 2) (accesses twoDebtors)
      (run (.withMaxBuckets 1 (by decide) 2) twoDebtors) (10 * nanosPerSec) 3 .probe := by
  refine ⟨⟨by decide, by decide +kernel, by decide +kernel⟩, fun h => ?_⟩
  obtain ⟨b, hb, hlive⟩ := (Option.any_eq_true _ _).mp
    (show ((run (.withMaxBuckets 1 (by decide) 2) twoDebtors).buckets.entries.get 1).any
      (fun b => decide (LiveDebt (.withMaxBuckets 1 (by decide) 2) (10 * nanosPerSec) b)) = true by decide +kernel)
  obtain ⟨c, hc, hrepaid⟩ := (Option.any_eq_true _ _).mp
    (show ((run (.withMaxBuckets 1 (by decide) 2) twoDebtors).buckets.entries.get 2).any
      (fun b => decide (¬ LiveDebt (.withMaxBuckets 1 (by decide) 2) (10 * nanosPerSec) b)) = true by decide +kernel)
  exact of_decide_eq_true hrepaid ((h 1 b hb (by decide +kernel) (of_decide_eq_true hlive)).1 2 c hc)

section Audit

/-- The number of buckets with a live debt that a call evicts at the hard bound. -/
def liveEvictions (limiter : RateLimiter) (state : State K) (c : Timed K) : Nat :=
  match c.call.access? with
  | some (key, a) => state.buckets.entries.keys.countP fun j =>
      (state.buckets.entries.get j).any (fun b => decide (LiveDebt limiter c.now b)) &&
        ((access limiter state c.now key a).2.buckets.entries.get j).isNone
  | none => 0

def drainedBy (state : State K) : Call K → Nat
  | .takeDebtForgivenEvictions => (takeDebtForgivenEvictions state).1
  | _ => 0

structure Audit (K : Type) where
  state : State K
  drained : Nat
  forgiven : Nat

def Audit.step (limiter : RateLimiter) (audit : Audit K) (c : Timed K) : Audit K :=
  { state := (perform limiter audit.state c).2
    drained := audit.drained + drainedBy audit.state c.call
    forgiven := audit.forgiven + liveEvictions limiter audit.state c }

def audit (limiter : RateLimiter) (calls : List (Timed K)) : Audit K :=
  calls.foldl (Audit.step limiter) ⟨.empty, 0, 0⟩

/-- The call has to make room while all balances were last written negative, and
the oldest of these debts has been repaid by waiting. -/
def EvictsRepaid (limiter : RateLimiter) (history : List (K × Nat)) (state : State K) (c : Timed K) : Prop :=
  ∃ key a, c.call.access? = some (key, a) ∧ AtBound limiter state key ∧ AllIndebted state.buckets ∧
    ∃ k b, state.buckets.entries.get k = some b ∧ LeastRecent history state.buckets k ∧ ¬ LiveDebt limiter c.now b

private theorem audit_concat (calls : List (Timed K)) (c : Timed K) :
    audit limiter (calls ++ [c]) = (audit limiter calls).step limiter c := by
  rw [audit, List.foldl_append]
  rfl

private theorem audit_state (calls : List (Timed K)) : (audit limiter calls).state = run limiter calls := by
  have hfold (state : Audit K) : (calls.foldl (Audit.step limiter) state).state = runFrom limiter state.state calls := by
    induction calls generalizing state with
    | nil => rfl
    | cons c calls ih => exact ih _
  exact hfold _

private theorem run_concat (calls : List (Timed K)) (c : Timed K) :
    run limiter (calls ++ [c]) = (perform limiter (run limiter calls) c).2 := by
  rw [← audit_state, audit_concat, Audit.step, audit_state]

private theorem countP_eq_one_of_unique {l : List K} (hn : l.Nodup) {p : K → Bool} {x : K} (hx : x ∈ l)
    (hp : ∀ y ∈ l, p y = true ↔ y = x) : l.countP p = 1 := by
  rw [← List.count_eq_one_of_mem hn hx, List.count]
  exact List.countP_congr fun y hy => by simp [hp y hy]

/-- At the hard bound, a live debt is forgiven exactly if it is the victim's. -/
private theorem liveEvictions_at_bound {state : State K} {c : Timed K} {key victim : K} {a : Access} {b : Bucket K}
    (ha : c.call.access? = some (key, a)) (hnew : state.buckets.entries.get key = none)
    (hv : state.buckets.entries.get victim = some b)
    (hget : ∀ j, j ≠ key → (access limiter state c.now key a).2.buckets.entries.get j =
      if j = victim then none else state.buckets.entries.get j) :
    liveEvictions limiter state c = if LiveDebt limiter c.now b then 1 else 0 := by
  simp only [liveEvictions, ha]
  have hiff (j : K) (hj : j ∈ state.buckets.entries.keys) :
      ((state.buckets.entries.get j).any (fun b => decide (LiveDebt limiter c.now b)) &&
        ((access limiter state c.now key a).2.buckets.entries.get j).isNone) = true ↔
      j = victim ∧ LiveDebt limiter c.now b := by
    obtain ⟨d, hd⟩ := FiniteMap.mem_keys.mp hj
    have hne : j ≠ key := by
      rintro rfl
      rw [hnew] at hd
      cases hd
    rw [hget j hne, hd]
    by_cases he : j = victim
    · subst he
      rw [hd] at hv
      cases hv
      simp
    · simp [he]
  by_cases hlive : LiveDebt limiter c.now b
  · rw [if_pos hlive]
    refine countP_eq_one_of_unique state.buckets.entries.keys_nodup (FiniteMap.mem_keys.mpr ⟨b, hv⟩) ?_
    intro j hj
    rw [hiff j hj]
    exact and_iff_left hlive
  · rw [if_neg hlive, List.countP_eq_zero]
    intro j hj hp
    exact hlive ((hiff j hj).mp hp).2

/-- What one call adds to the counter, drained counts included. It adds the live
debts that it forgives exactly if it evicts no bucket whose debt was repaid by waiting. -/
private structure CallCounts (limiter : RateLimiter) (history : List (K × Nat)) (state : State K) (c : Timed K)
    (counted : Nat) : Prop where
  counter : drainedBy state c.call + (perform limiter state c).2.debtForgivenEvictions =
    state.debtForgivenEvictions + counted
  le_accesses : counted ≤ (accesses [c]).length
  live_le : liveEvictions limiter state c ≤ counted
  exact_iff : counted = liveEvictions limiter state c ↔ ¬ EvictsRepaid limiter history state c

section CallCounts
variable {history : List (K × Nat)} {state : State K} {c : Timed K} {key : K} {a : Access}

private theorem callCounts_of_none (ha : c.call.access? = none) : CallCounts limiter history state c 0 := by
  have hlive : liveEvictions limiter state c = 0 := by simp only [liveEvictions, ha]
  have hnot : ¬ EvictsRepaid limiter history state c := by
    rintro ⟨key, a, ha', _⟩
    rw [ha] at ha'
    cases ha'
  refine ⟨?_, Nat.zero_le _, hlive.le, iff_of_true hlive.symm hnot⟩
  cases c with
  | mk now call =>
    cases call with
    | probe | charge => cases ha
    | takeDebtForgivenEvictions => rfl
    | sweepIdle =>
      simp only [drainedBy, perform, sweepIdle, Nat.zero_add, Nat.add_zero]
      split <;> rfl

/-- An access drains nothing. -/
private theorem counter_of_access (ha : c.call.access? = some (key, a)) :
    drainedBy state c.call + (perform limiter state c).2.debtForgivenEvictions =
      (access limiter state c.now key a).2.debtForgivenEvictions := by
  rw [perform_access limiter ha]
  cases hcall : c.call with
  | probe | charge | sweepIdle => exact Nat.zero_add _
  | takeDebtForgivenEvictions => rw [hcall] at ha; cases ha

private theorem callCounts_below (ha : c.call.access? = some (key, a)) (hb : ¬ AtBound limiter state key) :
    CallCounts limiter history state c 0 := by
  obtain ⟨hkept, hcounter⟩ := access_below_bound hb c.now a
  have hlive : liveEvictions limiter state c = 0 := by
    simp only [liveEvictions, ha]
    rw [List.countP_eq_zero]
    intro j hj hp
    obtain ⟨d, hd⟩ := FiniteMap.mem_keys.mp hj
    refine hkept j (by rw [hd]; simp) ?_
    simpa using (Bool.and_eq_true_iff.mp hp).2
  have hnot : ¬ EvictsRepaid limiter history state c := by
    rintro ⟨key', a', ha', hb', _⟩
    rw [ha] at ha'
    cases ha'
    exact hb hb'
  exact ⟨(counter_of_access ha).trans hcounter, Nat.zero_le _, hlive.le, iff_of_true hlive.symm hnot⟩

/-- At the hard bound, the victim was in debt when last touched and has repaid it since. -/
private theorem evictsRepaid_iff (h : Indexed history state.buckets) (ha : c.call.access? = some (key, a))
    (hb : AtBound limiter state key) {victim : K} {b : Bucket K} (hv : state.buckets.entries.get victim = some b)
    (hneg : b.balance < 0 → AllIndebted state.buckets ∧ LeastRecent history state.buckets victim)
    (hall : AllIndebted state.buckets → b.balance < 0) :
    EvictsRepaid limiter history state c ↔ b.balance < 0 ∧ ¬ LiveDebt limiter c.now b := by
  constructor
  · rintro ⟨key', a', ha', _, hindebted, k, d, hk, hleast, hnot⟩
    obtain rfl := h.leastRecent_unique hk hv hleast (hneg (hall hindebted)).2
    rw [hk] at hv
    cases hv
    exact ⟨hall hindebted, hnot⟩
  · rintro ⟨hbal, hnot⟩
    exact ⟨key, a, ha, hb, (hneg hbal).1, victim, b, hv, (hneg hbal).2, hnot⟩

private theorem callCounts_at_bound (h : Indexed history state.buckets) (ha : c.call.access? = some (key, a))
    (hb : AtBound limiter state key) (hsmall : state.debtForgivenEvictions + 1 < 2 ^ 64) :
    ∃ counted, CallCounts limiter history state c counted := by
  obtain ⟨victim, b, hv, hget, hcounter, hneg, hall⟩ := access_at_bound h hb c.now a
  have hlive := liveEvictions_at_bound ha hb.2.1 hv hget
  have hrepaid : EvictsRepaid limiter history state c ↔ _ := evictsRepaid_iff h ha hb hv hneg hall
  have hone : (accesses [c]).length = 1 := by simp [accesses, ha]
  have hsum := (counter_of_access ha).trans hcounter
  by_cases hbal : b.balance < 0
  · rw [if_pos hbal, Nat.mod_eq_of_lt hsmall] at hsum
    refine ⟨1, hsum, hone.ge, ?_, ?_⟩
    · rw [hlive]
      split <;> omega
    · rw [hlive, hrepaid]
      by_cases hl : LiveDebt limiter c.now b <;> simp [hl, hbal]
  · have hl : ¬ LiveDebt limiter c.now b := fun hl => hbal hl.balance_neg
    rw [if_neg hbal] at hsum
    rw [if_neg hl] at hlive
    refine ⟨0, hsum, Nat.zero_le _, hlive.le, iff_of_true hlive.symm ?_⟩
    rw [hrepaid]
    exact fun hr => hbal hr.1

private theorem exists_callCounts (h : Indexed history state.buckets) (c : Timed K)
    (hsmall : state.debtForgivenEvictions + (accesses [c]).length < 2 ^ 64) :
    ∃ counted, CallCounts limiter history state c counted := by
  cases ha : c.call.access? with
  | none => exact ⟨0, callCounts_of_none ha⟩
  | some access =>
    obtain ⟨key, a⟩ := access
    have hone : (accesses [c]).length = 1 := by simp [accesses, ha]
    by_cases hb : AtBound limiter state key
    · exact callCounts_at_bound h ha hb (by omega)
    · exact ⟨0, callCounts_below ha hb⟩

end CallCounts

/-- The counter never falls below the live debts forgiven, and stays equal to
them exactly as long as no bucket is evicted whose debt was repaid by waiting. -/
private theorem audit_counts (calls : List (Timed K)) (hcount : (accesses calls).length < 2 ^ 64) :
    (audit limiter calls).drained + (run limiter calls).debtForgivenEvictions ≤ (accesses calls).length ∧
    (audit limiter calls).forgiven ≤ (audit limiter calls).drained + (run limiter calls).debtForgivenEvictions ∧
    ((audit limiter calls).drained + (run limiter calls).debtForgivenEvictions = (audit limiter calls).forgiven ↔
      ∀ before c, before ++ [c] <+: calls → ¬ EvictsRepaid limiter (accesses before) (run limiter before) c) := by
  induction calls using List.reverseRecOn with
  | nil =>
    refine ⟨le_rfl, le_rfl, iff_of_true rfl ?_⟩
    intro before c h
    simp at h
  | append_singleton calls c ih =>
    rw [accesses_concat, List.length_append] at hcount
    obtain ⟨hle, hge, hiff⟩ := ih (by omega)
    obtain ⟨h, _⟩ := indexed_run limiter calls (by omega : (accesses calls).length < 2 ^ 64)
    obtain ⟨counted, hcounter, hone, hlive, hsame⟩ : ∃ counted,
        CallCounts limiter (accesses calls) (run limiter calls) c counted := exists_callCounts h c (by omega)
    rw [forall_steps_concat, ← hiff, ← hsame, accesses_concat, List.length_append, run_concat, audit_concat]
    simp only [Audit.step, audit_state]
    omega

/-- The forgiveness counter is exact in a run, drained counts included, exactly
if no call of the run evicts a bucket whose debt was repaid by waiting. -/
theorem forgiveness_counter_exact_iff (limiter : RateLimiter) (calls : List (Timed K))
    (hcount : (accesses calls).length < 2 ^ 64) :
    (audit limiter calls).drained + (run limiter calls).debtForgivenEvictions = (audit limiter calls).forgiven ↔
      ∀ before c, before ++ [c] <+: calls → ¬ EvictsRepaid limiter (accesses before) (run limiter before) c :=
  (audit_counts calls hcount).2.2

def drainedRun : List (Timed Nat) := [⟨0, .charge 1 3⟩, ⟨0, .probe 2⟩, ⟨0, .takeDebtForgivenEvictions⟩]

theorem forgiveness_counter_exact_iff_drainedRun :
    (audit (.withMaxBuckets 1 (by decide) 1) drainedRun).drained = 1 ∧
    ((audit (.withMaxBuckets 1 (by decide) 1) drainedRun).drained +
        (run (.withMaxBuckets 1 (by decide) 1) drainedRun).debtForgivenEvictions =
      (audit (.withMaxBuckets 1 (by decide) 1) drainedRun).forgiven ↔
      ∀ before c, before ++ [c] <+: drainedRun → ¬ EvictsRepaid (.withMaxBuckets 1 (by decide) 1) (accesses before)
        (run (.withMaxBuckets 1 (by decide) 1) before) c) :=
  ⟨by decide +kernel, forgiveness_counter_exact_iff _ drainedRun (by decide)⟩

/-- One command of debt is repaid after ten seconds; the eviction is counted all the same. -/
theorem repaid_debt_counted :
    (audit (.withMaxBuckets 1 (by decide) 1)
      ([⟨0, .charge 1 3⟩, ⟨10 * nanosPerSec, .probe 2⟩] : List (Timed Nat))).forgiven = 0 ∧
    (run (.withMaxBuckets 1 (by decide) 1)
      ([⟨0, .charge 1 3⟩, ⟨10 * nanosPerSec, .probe 2⟩] : List (Timed Nat))).debtForgivenEvictions = 1 := by
  decide +kernel

end Audit

end Srh.Domain.RateLimit
