import Srh.Domain.RateLimitIndex

/-! The representation invariant holds in every state a run reaches. -/
namespace Srh.Domain.RateLimit
open Srh.Lib

variable {K : Type}

theorem settle_bucket (limiter : RateLimiter) (b : Bucket K) (a : Access) :
    (settle limiter b a).2 = { b with balance := (settle limiter b a).2.balance } := by
  simp only [settle]
  split
  · rfl
  · cases a <;> rfl

theorem elapsedSecs_nonneg (now earlier : Nat) : 0 ≤ elapsedSecs now earlier :=
  div_nonneg (Nat.cast_nonneg _) (Nat.cast_nonneg _)

theorem capacity_nonneg (limiter : RateLimiter) : 0 ≤ limiter.capacity := Nat.cast_nonneg _

theorem capacity_pos {limiter : RateLimiter} (hr : limiter.rate ≠ 0) : 0 < limiter.capacity := by
  rw [RateLimiter.capacity, Nat.cast_pos]
  omega

theorem refill_balance_nonneg (limiter : RateLimiter) (b : Bucket K) (now : Nat) (h : 0 ≤ b.balance) :
    0 ≤ (refill limiter b now).balance :=
  le_min (add_nonneg h (mul_nonneg (elapsedSecs_nonneg _ _) (Nat.cast_nonneg _))) (capacity_nonneg limiter)

private theorem link_length {history : List (K × Nat)} {lru : Lru K} {b : Bucket K} {now : Nat} {key : K}
    (hn : lru.nextOrder = history.length) (hlen : history.length + 1 < 2 ^ 64) :
    (lru.link b).1.nextOrder = (history ++ [(key, now)]).length := by
  rw [link_nextOrder, hn, Nat.mod_eq_of_lt hlen, List.length_append, List.length_singleton]

private theorem accesses_sorted {calls : List (Timed K)} (h : NonDecreasing calls) :
    (accesses calls).Pairwise fun a b => a.2 ≤ b.2 := by
  refine List.Pairwise.filterMap _ ?_ h
  intro a b hab x hx y hy
  obtain ⟨_, _, rfl⟩ := Option.map_eq_some_iff.mp hx
  obtain ⟨_, _, rfl⟩ := Option.map_eq_some_iff.mp hy
  exact hab

private theorem unlink_len {lru : Lru K} {key : K} {b : Bucket K}
    (h : (lru.index b.indebted).get b.order = some key) :
    (lru.unlink b).credit.len + (lru.unlink b).debt.len + 1 = lru.credit.len + lru.debt.len := by
  rw [Lru.unlink]
  cases hi : b.indebted with
  | true =>
    rw [hi] at h
    have := FiniteMap.len_remove_of_get h
    simp only [Lru.index] at this
    simp only [if_true]
    omega
  | false =>
    rw [hi] at h
    have := FiniteMap.len_remove_of_get h
    simp only [Lru.index] at this
    simp only [Bool.false_eq_true, if_false]
    omega

variable [DecidableEq K] {history : List (K × Nat)} {buckets : Buckets K}

/-- A hard-bound eviction drops the oldest bucket that is not in debt, or the
oldest of all when every bucket is, from the map and from its index. -/
theorem evictOne_eq (h : Indexed history buckets) {k : K} {b : Bucket K}
    (hk : buckets.entries.get k = some b) :
    ∃ key victim, buckets.entries.get key = some victim ∧
      evictOne buckets = (⟨buckets.entries.remove key, buckets.lru.unlink victim⟩, victim.indebted) ∧
      ∀ j c, buckets.entries.get j = some c → (victim.indebted = true → c.indebted = true) ∧
        (c.indebted = victim.indebted → victim.order ≤ c.order) := by
  rw [evictOne]
  rcases hc : buckets.lru.credit.popFirst with ⟨_ | ⟨o, key⟩, credit⟩
  · have hnone := (FiniteMap.popFirst_none hc).2
    have hdebt (j : K) (c : Bucket K) (hj : buckets.entries.get j = some c) : c.indebted = true := by
      by_contra hf
      have hfind := (h.find_iff false c.order j).mpr ⟨c, hj, rfl, by simpa using hf⟩
      exact absurd (hnone c.order) (by rw [Lru.index] at hfind; simp [hfind])
    rcases hd : buckets.lru.debt.popFirst with ⟨_ | ⟨o, key⟩, debt⟩
    · have hfind := (h.find_iff true b.order k).mpr ⟨b, hk, rfl, hdebt k b hk⟩
      have hempty := (FiniteMap.popFirst_none hd).2 b.order
      rw [Lru.index] at hfind
      rw [hfind] at hempty
      cases hempty
    · obtain ⟨hget, rfl, hmin⟩ := FiniteMap.popFirst_some hd
      obtain ⟨victim, hv, rfl, hi⟩ := (h.find_iff true o key).mp hget
      refine ⟨key, victim, hv, by simp [Lru.unlink, hi], fun j c hj => ⟨fun _ => hdebt j c hj, fun _ => ?_⟩⟩
      exact hmin c.order j ((h.find_iff true c.order j).mpr ⟨c, hj, rfl, hdebt j c hj⟩)
  · obtain ⟨hget, rfl, hmin⟩ := FiniteMap.popFirst_some hc
    obtain ⟨victim, hv, rfl, hi⟩ := (h.find_iff false o key).mp hget
    refine ⟨key, victim, hv, by simp [Lru.unlink, hi], fun j c hj => ⟨by simp [hi], fun hs => ?_⟩⟩
    exact hmin c.order j ((h.find_iff false c.order j).mpr ⟨c, hj, rfl, hs.trans hi⟩)

/-- The invariant of a reachable state: the index structure, the memory bound,
and one order per access made so far. -/
structure Represents (limiter : RateLimiter) (history : List (K × Nat)) (buckets : Buckets K) : Prop where
  indexed : Indexed history buckets
  len_le : buckets.entries.len ≤ limiter.maxBuckets
  nextOrder_eq : buckets.lru.nextOrder = history.length

variable {limiter : RateLimiter}

private theorem represents_empty (limiter : RateLimiter) : Represents limiter [] ((State.empty : State K).buckets) :=
  ⟨indexed_empty [], Nat.zero_le _, rfl⟩

private theorem Represents.touch (h : Represents limiter history buckets) {now : Nat} {key : K} {b : Bucket K}
    (a : Access) (hk : buckets.entries.get key = some b) (hlen : history.length + 1 < 2 ^ 64) :
    Represents limiter (history ++ [(key, now)]) (touch limiter buckets now key b a).2 := by
  have hs := settle_bucket limiter { refill limiter b now with lastAccess := now } a
  refine ⟨?_, ?_, ?_⟩
  · have hf := (h.indexed.drop hk).file (FiniteMap.get_remove_self ..)
      (b := (settle limiter { refill limiter b now with lastAccess := now } a).2)
      (by rw [hs]; exact h.indexed.key_eq key b hk) (by rw [hs])
      (by rw [unlink_nextOrder]; exact h.nextOrder_eq)
    refine hf.congr (fun j => ?_) (fun _ _ => rfl)
    simp only [RateLimit.touch, FiniteMap.get_insert, FiniteMap.get_remove]
    split <;> rfl
  · exact (FiniteMap.len_insert_of_get _ hk).trans_le h.len_le
  · exact link_length (by rw [unlink_nextOrder]; exact h.nextOrder_eq) hlen

private theorem Represents.admitNew (h : Represents limiter history buckets) {now : Nat} {key : K} (a : Access)
    (hk : buckets.entries.get key = none) (hroom : buckets.entries.len < limiter.maxBuckets)
    (hlen : history.length + 1 < 2 ^ 64) :
    Represents limiter (history ++ [(key, now)]) (admitNew limiter buckets now key a).2 := by
  have hs := settle_bucket limiter ⟨limiter.capacity, now, now, 0, key, false⟩ a
  refine ⟨h.indexed.file hk (by rw [hs]) (by rw [hs]) h.nextOrder_eq, ?_, link_length h.nextOrder_eq hlen⟩
  exact (FiniteMap.len_insert_of_get_none _ hk).trans_le hroom

/-- Eviction makes room for one bucket and touches no other. -/
theorem Represents.evictOne (h : Represents limiter history buckets) {key : K}
    (hk : buckets.entries.get key = none) (hfull : limiter.maxBuckets ≤ buckets.entries.len) :
    Represents limiter history (evictOne buckets).1 ∧ (evictOne buckets).1.entries.get key = none ∧
      (evictOne buckets).1.entries.len < limiter.maxBuckets := by
  have hpos : 0 < buckets.entries.keys.length := limiter.maxBuckets_pos.trans_le hfull
  obtain ⟨b, hb⟩ := FiniteMap.mem_keys.mp (List.getElem_mem hpos)
  obtain ⟨victim, v, hv, he, _⟩ := evictOne_eq h.indexed hb
  have hlen := FiniteMap.len_remove_of_get hv
  have hle := h.len_le
  rw [he]
  refine ⟨⟨h.indexed.drop hv, ?_, by rw [unlink_nextOrder]; exact h.nextOrder_eq⟩, ?_, ?_⟩
  · dsimp only; omega
  · rw [FiniteMap.get_remove, hk, ite_self]
  · dsimp only; omega

private theorem Represents.access {state : State K} (h : Represents limiter history state.buckets) (now : Nat)
    (key : K) (a : Access) (hr : limiter.rate ≠ 0) (hlen : history.length + 1 < 2 ^ 64) :
    Represents limiter (history ++ [(key, now)]) (access limiter state now key a).2.buckets := by
  rw [RateLimit.access]
  rw [if_neg hr]
  cases hk : state.buckets.entries.get key with
  | some b => exact h.touch a hk hlen
  | none =>
    by_cases hfull : limiter.maxBuckets ≤ state.buckets.entries.len
    · obtain ⟨he, hke, hroom⟩ := h.evictOne hk hfull
      simp only [if_pos hfull]
      exact he.admitNew a hke hroom hlen
    · simp only [if_neg hfull]
      exact h.admitNew a hk (not_le.mp hfull) hlen

private theorem Represents.sweepStep (h : Represents limiter history buckets) (now : Nat) (idle : List K) (key : K) :
    Represents limiter history (sweepStep limiter now (buckets, idle) key).1 := by
  rw [RateLimit.sweepStep]
  cases hk : buckets.entries.get key with
  | none => exact h
  | some b =>
    refine ⟨h.indexed.refile hk (refill_balance_nonneg limiter b now) rfl, ?_, ?_⟩
    · exact (FiniteMap.len_insert_of_get _ hk).trans_le h.len_le
    · exact (leaveDebt_nextOrder ..).trans h.nextOrder_eq

private theorem Represents.dropIdle (h : Represents limiter history buckets) (key : K) :
    Represents limiter history (dropIdle buckets key) := by
  rw [RateLimit.dropIdle]
  cases hk : buckets.entries.get key with
  | none => exact h
  | some b =>
    refine ⟨h.indexed.drop hk, (FiniteMap.len_remove_le _ _).trans h.len_le, ?_⟩
    rw [unlink_nextOrder]
    exact h.nextOrder_eq

private theorem Represents.sweepIdle {state : State K} (h : Represents limiter history state.buckets) (now : Nat) :
    Represents limiter history (sweepIdle limiter state now).2.buckets := by
  rw [RateLimit.sweepIdle]
  split
  · exact h
  · have first (keys : List K) (acc : Buckets K × List K) (ha : Represents limiter history acc.1) :
        Represents limiter history (keys.foldl (RateLimit.sweepStep limiter now) acc).1 := by
      induction keys generalizing acc with
      | nil => exact ha
      | cons key keys ih => exact ih _ (ha.sweepStep now acc.2 key)
    have second (keys : List K) (b : Buckets K) (hb : Represents limiter history b) :
        Represents limiter history (keys.foldl RateLimit.dropIdle b) := by
      induction keys generalizing b with
      | nil => exact hb
      | cons key keys ih => exact ih _ (hb.dropIdle key)
    exact second _ _ (first _ _ h)

private theorem Represents.perform {state : State K} (h : Represents limiter history state.buckets)
    (c : Timed K) (hr : limiter.rate ≠ 0)
    (hlen : (history ++ accesses [c]).length < 2 ^ 64) :
    Represents limiter (history ++ accesses [c]) (perform limiter state c).2.buckets := by
  cases c with
  | mk now call =>
    cases call with
    | probe key => exact h.access now key .probe hr (by simpa [accesses, Call.access?] using hlen)
    | charge key n => exact h.access now key (.charge n) hr (by simpa [accesses, Call.access?] using hlen)
    | sweepIdle => exact (List.append_nil history).symm ▸ h.sweepIdle now
    | takeDebtForgivenEvictions => exact (List.append_nil history).symm ▸ h

private theorem Represents.runFrom {state : State K} (h : Represents limiter history state.buckets)
    (calls : List (Timed K)) (hr : limiter.rate ≠ 0)
    (hlen : (history ++ accesses calls).length < 2 ^ 64) :
    Represents limiter (history ++ accesses calls) (runFrom limiter state calls).buckets := by
  induction calls generalizing history state with
  | nil => exact (List.append_nil history).symm ▸ h
  | cons c calls ih =>
    have hsplit : accesses (c :: calls) = accesses [c] ++ accesses calls := by
      rw [accesses_cons, accesses_cons c []]
      simp [accesses]
    rw [hsplit, ← List.append_assoc] at hlen ⊢
    refine ih (h.perform c hr ?_) hlen
    rw [List.length_append] at hlen
    omega

/-- A limiter whose rate is zero never leaves the empty state. -/
theorem run_of_rate_zero (h : limiter.rate = 0) (calls : List (Timed K)) :
    (run limiter calls).buckets = (State.empty : State K).buckets := by
  have hstep (state : State K) (c : Timed K) : (perform limiter state c).2.buckets = state.buckets := by
    cases c with
    | mk now call => cases call <;> simp [RateLimit.perform, probe, charge, RateLimit.access,
        RateLimit.sweepIdle, takeDebtForgivenEvictions, h]
  have hrun (state : State K) : (RateLimit.runFrom limiter state calls).buckets = state.buckets := by
    induction calls generalizing state with
    | nil => rfl
    | cons c calls ih => exact (ih _).trans (hstep state c)
  exact hrun _

/-- Whatever the rate, a reachable state is indexed by the accesses of its run. -/
theorem indexed_run (limiter : RateLimiter) (calls : List (Timed K)) (hlen : (accesses calls).length < 2 ^ 64) :
    Indexed (accesses calls) (run limiter calls).buckets ∧
      (run limiter calls).buckets.entries.len ≤ limiter.maxBuckets ∧
      (limiter.rate ≠ 0 → (run limiter calls).buckets.lru.nextOrder = (accesses calls).length) := by
  by_cases hr : limiter.rate = 0
  · rw [run_of_rate_zero hr]
    exact ⟨indexed_empty _, Nat.zero_le _, fun h => absurd hr h⟩
  · have h := (represents_empty limiter).runFrom calls hr hlen
    exact ⟨h.indexed, h.len_le, fun _ => h.nextOrder_eq⟩

/-- The two indices together list every retained key once and nothing else. -/
theorem Indexed.values_perm (h : Indexed history buckets) :
    (buckets.lru.credit.values ++ buckets.lru.debt.values).Perm buckets.entries.keys := by
  have holder (flag : Bool) {o : Nat} {k : K} (hf : (buckets.lru.index flag).get o = some k) :=
    (h.find_iff flag o k).mp hf
  have hnodup (flag : Bool) : (buckets.lru.index flag).values.Nodup := by
    apply FiniteMap.values_nodup
    intro i j k hi hj
    obtain ⟨b, hb, rfl, _⟩ := holder flag hi
    obtain ⟨c, hc, rfl, _⟩ := holder flag hj
    rw [hb] at hc
    cases hc
    rfl
  refine (List.perm_ext_iff_of_nodup ?_ buckets.entries.keys_nodup).mpr ?_
  · refine (hnodup false).append (hnodup true) fun k hc hd => ?_
    obtain ⟨i, hi⟩ := FiniteMap.mem_values.mp hc
    obtain ⟨j, hj⟩ := FiniteMap.mem_values.mp hd
    obtain ⟨b, hb, _, hfb⟩ := holder false hi
    obtain ⟨c, hc', _, hfc⟩ := holder true hj
    rw [hb] at hc'
    cases hc'
    rw [hfb] at hfc
    cases hfc
  · intro k
    rw [List.mem_append, FiniteMap.mem_values, FiniteMap.mem_values, FiniteMap.mem_keys]
    constructor
    · rintro (⟨o, ho⟩ | ⟨o, ho⟩)
      · obtain ⟨b, hb, _⟩ := holder false ho
        exact ⟨b, hb⟩
      · obtain ⟨b, hb, _⟩ := holder true ho
        exact ⟨b, hb⟩
    · rintro ⟨b, hb⟩
      have hf := (h.find_iff b.indebted b.order k).mpr ⟨b, hb, rfl, rfl⟩
      cases hi : b.indebted with
      | false => exact .inl ⟨b.order, by rw [hi] at hf; exact hf⟩
      | true => exact .inr ⟨b.order, by rw [hi] at hf; exact hf⟩

/-- Everything the three structures promise about one another. The history
lists the accesses of the run with their clock readings. -/
structure WellFormed (limiter : RateLimiter) (history : List (K × Nat)) (buckets : Buckets K) : Prop where
  len_le : buckets.entries.len ≤ limiter.maxBuckets
  key_eq : ∀ k b, buckets.entries.get k = some b → b.key = k
  indebted_iff : ∀ k b, buckets.entries.get k = some b → (b.indebted = true ↔ b.balance < 0)
  indexed : ∀ k b, buckets.entries.get k = some b → (buckets.lru.index b.indebted).get b.order = some k
  exactly_once : (buckets.lru.credit.values ++ buckets.lru.debt.values).Perm buckets.entries.keys
  order_inj : ∀ j k b c, buckets.entries.get j = some b → buckets.entries.get k = some c →
    b.order = c.order → j = k
  order_lt : ∀ k b, buckets.entries.get k = some b → b.order < buckets.lru.nextOrder
  recency : ∀ flag o k o' k', (buckets.lru.index flag).get o = some k → (buckets.lru.index flag).get o' = some k' →
    ∃ i t i' t', LastAt history k i t ∧ LastAt history k' i' t' ∧ (o < o' ↔ i < i') ∧ (o < o' → t ≤ t')
  evicts_one : limiter.maxBuckets ≤ buckets.entries.len → ∃ key victim, buckets.entries.get key = some victim ∧
    (evictOne buckets).1 = ⟨buckets.entries.remove key, buckets.lru.unlink victim⟩ ∧
    (evictOne buckets).1.entries.len + 1 = buckets.entries.len ∧
    (evictOne buckets).1.lru.credit.len + (evictOne buckets).1.lru.debt.len + 1 =
      buckets.lru.credit.len + buckets.lru.debt.len

/-- Every state reached by fewer than 2^64 accesses under a non-decreasing clock
is well formed, for every rate, bound and key type. -/
theorem run_wellFormed (limiter : RateLimiter) (calls : List (Timed K)) (hclock : NonDecreasing calls)
    (hcount : (accesses calls).length < 2 ^ 64) :
    WellFormed limiter (accesses calls) (run limiter calls).buckets := by
  obtain ⟨h, hlen, hnext⟩ := indexed_run limiter calls hcount
  have hindexed (k : K) (b : Bucket K) (hk : (run limiter calls).buckets.entries.get k = some b) :=
    (h.find_iff b.indebted b.order k).mpr ⟨b, hk, rfl, rfl⟩
  refine ⟨hlen, h.key_eq, h.indebted_iff, hindexed, h.values_perm, fun j k b c hj hk => h.order_inj hj hk,
    ?_, ?_, ?_⟩
  · intro k b hk
    have hr : limiter.rate ≠ 0 := by
      intro hz
      rw [run_of_rate_zero hz] at hk
      cases hk
    rw [hnext hr]
    exact (h.last k b hk).lt
  · intro flag o k o' k' ho ho'
    obtain ⟨b, hb, rfl, _⟩ := (h.find_iff flag o k).mp ho
    obtain ⟨c, hc, rfl, _⟩ := (h.find_iff flag o' k').mp ho'
    have hk := h.last k b hb
    have hk' := h.last k' c hc
    refine ⟨b.order, b.lastAccess, c.order, c.lastAccess, hk, hk', Iff.rfl, fun hlt => ?_⟩
    obtain ⟨hi, hgi⟩ := List.getElem?_eq_some_iff.mp hk.1
    obtain ⟨hj, hgj⟩ := List.getElem?_eq_some_iff.mp hk'.1
    have hle := List.pairwise_iff_getElem.mp (accesses_sorted hclock) b.order c.order hi hj hlt
    rw [hgi, hgj] at hle
    exact hle
  · intro hfull
    have hpos : 0 < (run limiter calls).buckets.entries.keys.length := limiter.maxBuckets_pos.trans_le hfull
    obtain ⟨b, hb⟩ := FiniteMap.mem_keys.mp (List.getElem_mem hpos)
    obtain ⟨key, victim, hv, he, _⟩ := evictOne_eq h hb
    rw [he]
    exact ⟨key, victim, hv, rfl, FiniteMap.len_remove_of_get hv, unlink_len (hindexed key victim hv)⟩

def smallRun : List (Timed Nat) :=
  [⟨0, .charge 1 9⟩, ⟨0, .charge 2 1⟩, ⟨nanosPerSec, .probe 3⟩, ⟨2 * nanosPerSec, .charge 1 1⟩,
    ⟨2 * idleEviction, .sweepIdle⟩, ⟨2 * idleEviction, .probe 1⟩]

theorem run_wellFormed_smallRun :
    (run (.withMaxBuckets 1 (by decide) 2) (smallRun.take 4)).buckets.entries.keys = [1, 3] ∧
      WellFormed (.withMaxBuckets 1 (by decide) 2) (accesses smallRun)
        (run (.withMaxBuckets 1 (by decide) 2) smallRun).buckets :=
  ⟨by decide +kernel, run_wellFormed _ smallRun (by unfold NonDecreasing; decide +kernel) (by decide +kernel)⟩

end Srh.Domain.RateLimit
