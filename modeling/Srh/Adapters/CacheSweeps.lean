import Srh.Adapters.CacheHistory
import Srh.Lib.Machine

/-! Sweeps of the introspection cache that come in between other calls, and what a
whole run of the cache guarantees. -/
namespace Srh.Adapters
open Srh.Lib IntrospectionEntries

section Interspersing
variable {δ : Type}

/-- A run in which some sweeps are extra: these are only times. -/
abbrev Interspersed (δ : Type) := List (Nat ⊕ CacheEvent δ)

def Interspersed.swept (run : Interspersed δ) : List (CacheEvent δ) := run.map (Sum.elim (⟨·, .sweep⟩) id)

def Interspersed.original (run : Interspersed δ) : List (CacheEvent δ) := run.filterMap Sum.getRight?

private theorem swept_concat (run : Interspersed δ) (last : Nat ⊕ CacheEvent δ) :
    Interspersed.swept (run ++ [last]) = run.swept ++ [Sum.elim (⟨·, .sweep⟩) id last] :=
  List.map_append

private theorem original_extra (run : Interspersed δ) (now : Nat) : Interspersed.original (run ++ [.inl now]) = run.original := by
  rw [Interspersed.original, List.filterMap_append]
  exact List.append_nil _

private theorem original_concat (run : Interspersed δ) (event : CacheEvent δ) :
    Interspersed.original (run ++ [.inr event]) = run.original ++ [event] :=
  List.filterMap_append

end Interspersing

variable {δ : Type} [LinearOrder δ]

def Fits (cache : IntrospectionCache) (state : IntrospectionEntries δ) (event : CacheEvent δ) : Prop :=
  ∀ digest active, event.call = .insert digest active → state.entries.get digest = none →
    state.entries.len < cache.maxEntries

def NeverFull (cache : IntrospectionCache) (events : List (CacheEvent δ)) : Prop :=
  ∀ before event, before ++ [event] <+: events → Fits cache (CacheRecord.replay cache before).state event

/-- A cache that was swept more often holds no more, and everything that is live. -/
structure Covers (now : Nat) (state swept : IntrospectionEntries δ) : Prop where
  sub : ∀ digest answer, swept.held digest = some answer → state.held digest = some answer
  live : ∀ digest answer, state.held digest = some answer → now < answer.2 → swept.held digest = some answer

section Covering
variable {cache : IntrospectionCache} {now later : Nat} {state swept : IntrospectionEntries δ}

private theorem live_eq_some {digest : δ} {answer : Bool × Nat} :
    state.live now digest = some answer ↔ state.held digest = some answer ∧ now < answer.2 := by
  rw [IntrospectionEntries.live, Option.filter_eq_some_iff, decide_eq_true_eq]

private theorem mem_keys_iff_held {digest : δ} : digest ∈ state.entries.keys ↔ ∃ answer, state.held digest = some answer := by
  rw [FiniteMap.mem_keys, held]
  constructor
  · rintro ⟨entry, h⟩
    exact ⟨_, by rw [h]; rfl⟩
  · rintro ⟨answer, h⟩
    obtain ⟨entry, hget, -⟩ := Option.map_eq_some_iff.mp h
    exact ⟨entry, hget⟩

/-- What is live is the same from that time on. -/
theorem Covers.live_eq (h : Covers now state swept) (hnow : now ≤ later) (digest : δ) :
    state.live later digest = swept.live later digest := by
  apply Option.ext
  intro answer
  rw [live_eq_some, live_eq_some]
  constructor
  · rintro ⟨hheld, hlt⟩
    exact ⟨h.live digest answer hheld (by omega), hlt⟩
  · rintro ⟨hheld, hlt⟩
    exact ⟨h.sub digest answer hheld, hlt⟩

private theorem Covers.mono (h : Covers now state swept) (hnow : now ≤ later) : Covers later state swept :=
  ⟨h.sub, fun digest answer hheld hlt => h.live digest answer hheld (by omega)⟩

private theorem Covers.extra (h : Covers now state swept) (hs : Sized cache swept) (hnow : now ≤ later) :
    Covers later state (swept.sweep later).2 where
  sub digest answer hheld := by
    rw [held_sweep hs.tracked, live_eq_some] at hheld
    exact h.sub digest answer hheld.1
  live digest answer hheld hlt := by
    rw [held_sweep hs.tracked, live_eq_some]
    exact ⟨h.live digest answer hheld (by omega), hlt⟩

/-- The same answer filed for a digest on both sides. -/
theorem Covers.update (h : Covers now state swept) (hnow : now ≤ later) {next next' : IntrospectionEntries δ} {digest : δ}
    {answer : Option (Bool × Nat)} (hnext : ∀ other, next.held other = if other = digest then answer else state.held other)
    (hnext' : ∀ other, next'.held other = if other = digest then answer else swept.held other) : Covers later next next' where
  sub other found hheld := by
    rw [hnext'] at hheld
    rw [hnext]
    split at hheld
    · next heq => rw [if_pos heq, hheld]
    · next hne => rw [if_neg hne, h.sub other found hheld]
  live other found hheld hlt := by
    rw [hnext] at hheld
    rw [hnext']
    split at hheld
    · next heq => rw [if_pos heq, hheld]
    · next hne => rw [if_neg hne, (h.mono hnow).live other found hheld hlt]

private theorem Covers.get (h : Covers now state swept) (hnow : now ≤ later) (digest : δ) :
    Covers later (state.get later digest).2 (swept.get later digest).2 := by
  refine h.update hnow (held_get later digest) ?_
  intro other
  rw [held_get, h.live_eq hnow]

private theorem Covers.sweep (h : Covers now state swept) (ht : Sized cache state) (hs : Sized cache swept) (hnow : now ≤ later) :
    Covers later (state.sweep later).2 (swept.sweep later).2 := by
  constructor
  · intro digest answer hheld
    rw [held_sweep hs.tracked] at hheld
    rw [held_sweep ht.tracked, h.live_eq hnow, hheld]
  · intro digest answer hheld _
    rw [held_sweep ht.tracked] at hheld
    rw [held_sweep hs.tracked, ← h.live_eq hnow, hheld]

private theorem Covers.keys_subset (h : Covers now state swept) : swept.entries.keys ⊆ state.entries.keys := by
  intro digest hd
  obtain ⟨answer, hheld⟩ := mem_keys_iff_held.mp hd
  exact mem_keys_iff_held.mpr ⟨answer, h.sub digest answer hheld⟩

/-- Where the one cache has room, so has the other. -/
theorem Covers.not_evicted (h : Covers now state swept) (ht : Sized cache state) {digest : δ}
    (hfits : state.entries.get digest = none → state.entries.len < cache.maxEntries) :
    evicted cache state digest = none ∧ evicted cache swept digest = none := by
  have hle : swept.entries.len ≤ state.entries.len :=
    (List.subperm_of_subset swept.entries.keys_nodup h.keys_subset).length_le
  constructor
  · refine if_neg fun hfull => ?_
    have hroom := hfits hfull.1
    omega
  · refine if_neg fun hfull => ?_
    cases hget : state.entries.get digest with
    | none =>
      have hroom := hfits hget
      omega
    | some entry =>
      -- the digest itself is missing from the cache that was swept
      have hmissing := FiniteMap.get_eq_none.mp hfull.1
      have hsub : digest :: swept.entries.keys ⊆ state.entries.keys :=
        List.cons_subset.mpr ⟨FiniteMap.mem_keys.mpr ⟨entry, hget⟩, h.keys_subset⟩
      have hlt : (digest :: swept.entries.keys).length ≤ state.entries.keys.length :=
        (List.subperm_of_subset (List.nodup_cons.mpr ⟨hmissing, swept.entries.keys_nodup⟩) hsub).length_le
      have hbounded := ht.bounded
      rw [List.length_cons] at hlt
      simp only [FiniteMap.len] at hfull hbounded
      omega

private theorem Covers.insert (h : Covers now state swept) (ht : Sized cache state) (hs : Sized cache swept) (hnow : now ≤ later)
    {digest : δ} (hfits : state.entries.get digest = none → state.entries.len < cache.maxEntries) (active : Bool) :
    Covers later (state.insert cache later digest active) (swept.insert cache later digest active) := by
  obtain ⟨hnone, hnone'⟩ := h.not_evicted ht hfits
  apply h.update hnow
  · intro other
    rw [held_insert ht.tracked, hnone, if_neg (Option.some_ne_none other).symm]
  · intro other
    rw [held_insert hs.tracked, hnone', if_neg (Option.some_ne_none other).symm]

private theorem Covers.step {record other : CacheRecord δ} (h : Covers now record.state other.state) (ht : Sized cache record.state)
    (hs : Sized cache other.state) {event : CacheEvent δ} (hnow : now ≤ event.now) (hfits : Fits cache record.state event) :
    Covers event.now (record.step cache event).state (other.step cache event).state := by
  obtain ⟨later, call⟩ := event
  cases call with
  | get digest => exact h.get hnow digest
  | insert digest active => exact h.insert ht hs hnow (hfits digest active rfl) active
  | sweep => exact h.sweep ht hs hnow

end Covering

section Runs
variable {cache : IntrospectionCache} {now : Nat}

/-- Extra sweeps leave a cache that covers the other, along every run with room. -/
theorem covers_replay (hpos : 0 < cache.maxEntries) {run : Interspersed δ} (hclock : NonDecreasing run.swept)
    (hnow : ∀ event ∈ run.swept, event.now ≤ now) (hfull : NeverFull cache run.original) :
    Covers now (CacheRecord.replay cache run.original).state (CacheRecord.replay cache run.swept).state := by
  induction run using List.reverseRecOn generalizing now with
  | nil => exact ⟨fun _ _ h => h, fun _ _ h _ => h⟩
  | append_singleton run last ih =>
    rw [swept_concat] at hclock hnow ⊢
    obtain ⟨hbefore, -, hlast⟩ := List.pairwise_append.mp hclock
    have hle := fun e he => hlast e he _ (List.mem_singleton_self _)
    refine Covers.mono ?_ (hnow _ (List.mem_append_right _ (List.mem_singleton_self _)))
    rw [CacheRecord.replay_concat]
    cases last with
    | inl later =>
      rw [original_extra] at hfull ⊢
      exact (ih hbefore hle hfull).extra (CacheRecord.sized_replay hpos _) le_rfl
    | inr event =>
      rw [original_concat] at hfull ⊢
      obtain ⟨hfull, hfits⟩ := forall_steps_concat.mp hfull
      rw [CacheRecord.replay_concat]
      exact (ih hbefore hle hfull).step (CacheRecord.sized_replay hpos _) (CacheRecord.sized_replay hpos _) le_rfl hfits

/-- A full cache makes room by exactly the entry whose latest use is oldest. -/
theorem evicts_oldest {record : CacheRecord δ} (h : CacheRecord.Faithful cache record now) (hpos : 0 < cache.maxEntries)
    {digest : δ} (hnone : record.state.entries.get digest = none) (hfull : cache.maxEntries ≤ record.state.entries.len)
    (later : Nat) (active : Bool) :
    ∃ victim i, evicted cache record.state digest = some victim ∧ record.state.entries.get victim ≠ none ∧
      record.used victim = some i ∧
      (∀ other, other ≠ victim → record.state.entries.get other ≠ none → ∃ j, record.used other = some j ∧ i < j) ∧
      ∀ other, other ≠ digest → (record.state.insert cache later digest active).entries.get other =
        if other = victim then none else record.state.entries.get other := by
  rcases h.sized.tracked.insert_cases cache later digest active with ⟨previous, hget, -⟩ |
    ⟨victim, entry, -, hsome, hvictim, -, heq⟩ | ⟨-, -, hroom, -⟩
  · cases hnone.symm.trans hget
  · obtain ⟨i, hi, holdest⟩ := h.evicted_oldest hsome
    refine ⟨victim, i, hsome, by rw [hvictim]; exact Option.some_ne_none _, hi, holdest, ?_⟩
    intro other hne
    rw [heq, IntrospectionEntries.file, FiniteMap.get_insert, if_neg hne]
    exact FiniteMap.get_remove _ _ _
  · omega

end Runs

/-- In every state of every run the recency set is that of the stored entries and the
capacity is kept. A lookup answers the latest insertion that was not evicted, until its
time is up; an eviction takes the entry whose latest insertion or hit is oldest; and
extra sweeps change no lookup of a run that never reaches the capacity. -/
theorem introspection_cache_correct (ttlSecs maxEntries : Nat) (events : List (CacheEvent δ))
    (hclock : NonDecreasing events) (hlen : events.length < 2 ^ 64) :
    let cache := IntrospectionCache.withMaxEntries ttlSecs maxEntries
    let record := CacheRecord.replay cache events
    ((∀ recency, recency ∈ record.state.lru ↔
        ∃ digest entry, record.state.entries.get digest = some entry ∧ entry.recency digest = recency) ∧
      record.state.entries.len ≤ cache.maxEntries) ∧
    (∀ now digest answer, (∀ event ∈ events, event.now ≤ now) →
      ((record.state.get now digest).1 = some answer ↔
        ∃ time, record.inserted digest = some (time, answer) ∧ now < time + Duration.fromSecs ttlSecs)) ∧
    (∀ now digest active, (∀ event ∈ events, event.now ≤ now) →
      record.state.entries.get digest = none → cache.maxEntries ≤ record.state.entries.len →
      ∃ victim i, evicted cache record.state digest = some victim ∧ record.state.entries.get victim ≠ none ∧
        record.used victim = some i ∧
        (∀ other, other ≠ victim → record.state.entries.get other ≠ none → ∃ j, record.used other = some j ∧ i < j) ∧
        ∀ other, other ≠ digest → (record.state.insert cache now digest active).entries.get other =
          if other = victim then none else record.state.entries.get other) ∧
    ∀ run : Interspersed δ, run.original = events → NonDecreasing run.swept → NeverFull cache events →
      ∀ now digest, (∀ event ∈ run.swept, event.now ≤ now) →
        ((CacheRecord.replay cache run.swept).state.get now digest).1 = (record.state.get now digest).1 := by
  intro cache record
  have hpos : 0 < cache.maxEntries := Nat.lt_of_lt_of_le Nat.zero_lt_one (Nat.le_max_right _ _)
  have hsized : Sized cache record.state := CacheRecord.sized_replay hpos events
  refine ⟨⟨hsized.tracked, hsized.bounded⟩, ?_, ?_, ?_⟩
  · intro now digest answer hnow
    exact (CacheRecord.faithful_replay hclock hlen hpos hnow).get_iff digest answer
  · intro now digest active hnow hnone hfull
    exact evicts_oldest (CacheRecord.faithful_replay hclock hlen hpos hnow) hpos hnone hfull now active
  · intro run hrun hswept hroom now digest hnow
    have hcovers := covers_replay hpos hswept hnow (hrun ▸ hroom)
    rw [hrun] at hcovers
    rw [get_eq_live, get_eq_live, ← hcovers.live_eq le_rfl]

def oneInsertion : Interspersed Nat := [.inr ⟨0, .insert 7 true⟩, .inl 3]

private theorem oneInsertion_neverFull (ttlSecs : Nat) : NeverFull (.withMaxEntries ttlSecs 1) oneInsertion.original := by
  intro before event hprefix
  have hone : (before ++ [event]).length ≤ 1 := hprefix.length_le
  rw [List.length_append, List.length_singleton] at hone
  obtain rfl : before = [] := List.length_eq_zero_iff.mp (by omega)
  intro digest active _ _
  exact Nat.zero_lt_one

theorem introspection_cache_correct_one :
    ((CacheRecord.replay (.withMaxEntries 30 1) oneInsertion.original).state.get 5 7).1 = some true ∧
      (∃ victim, evicted (.withMaxEntries 30 1) (CacheRecord.replay (.withMaxEntries 30 1) oneInsertion.original).state 8 =
        some victim) ∧
      ((CacheRecord.replay (.withMaxEntries 30 1) oneInsertion.swept).state.get 5 7).1 = some true := by
  have hevents : ∀ event ∈ oneInsertion.original, event.now ≤ 5 := by
    intro event he
    rw [List.mem_singleton.mp he]
    decide
  have hswept : ∀ event ∈ oneInsertion.swept, event.now ≤ 5 := by
    intro event he
    rcases List.mem_pair.mp he with rfl | rfl <;> decide
  obtain ⟨-, hget, hevict, hsweeps⟩ := introspection_cache_correct 30 1 oneInsertion.original (by decide) (by decide)
  have hfound := (hget 5 7 true hevents).mpr ⟨0, rfl, by decide⟩
  obtain ⟨victim, -, hvictim, -⟩ := hevict 5 8 true hevents rfl (by decide)
  refine ⟨hfound, ⟨victim, hvictim⟩, ?_⟩
  rw [hsweeps oneInsertion rfl (by decide) (oneInsertion_neverFull 30) 5 7 hswept]
  exact hfound

/-- A sweep that comes in between takes away what a later sweep would have counted. -/
theorem extra_sweep_changes_count :
    NonDecreasing (Interspersed.swept (oneInsertion ++ [.inl 1000000000, .inr ⟨2000000000, .sweep⟩])) ∧
      NeverFull (.withMaxEntries 1 1) oneInsertion.original ∧
      ((CacheRecord.replay (.withMaxEntries 1 1) oneInsertion.original).state.sweep 2000000000).1 = 1 ∧
      ((CacheRecord.replay (.withMaxEntries 1 1) (Interspersed.swept (oneInsertion ++ [.inl 1000000000]))).state.sweep
        2000000000).1 = 0 :=
  ⟨by decide, oneInsertion_neverFull 1, rfl, rfl⟩

end Srh.Adapters
