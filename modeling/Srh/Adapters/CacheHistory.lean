import Mathlib.Data.List.Induction
import Srh.Adapters.CacheRecency

/-! Whole runs of the introspection cache. A record keeps beside the cache when each
digest was inserted and used; the cache is then read off that record. -/
namespace Srh.Adapters
open Srh.Lib

structure CacheEvent (δ : Type) where
  now : Nat
  call : CacheCall δ
  deriving DecidableEq, Repr

def NonDecreasing {δ : Type} (events : List (CacheEvent δ)) : Prop := events.Pairwise fun d e => d.now ≤ e.now

instance {δ : Type} (events : List (CacheEvent δ)) : Decidable (NonDecreasing events) :=
  inferInstanceAs (Decidable (List.Pairwise _ _))

open IntrospectionEntries

/-- A cache and its history: how many calls there were, the time and the answer of the
latest insertion of a digest unless it was evicted since, and the number of the latest
call that inserted the digest or found it. -/
structure CacheRecord (δ : Type) where
  state : IntrospectionEntries δ
  calls : Nat
  inserted : δ → Option (Nat × Bool)
  used : δ → Option Nat

namespace CacheRecord
variable {δ : Type} [LinearOrder δ]

def empty : CacheRecord δ := ⟨.empty, 0, fun _ => none, fun _ => none⟩

section Steps
variable (cache : IntrospectionCache) (record : CacheRecord δ)

def lookup (now : Nat) (digest : δ) : CacheRecord δ where
  state := (record.state.get now digest).2
  calls := record.calls + 1
  inserted := record.inserted
  used := if (record.state.get now digest).1.isSome then Function.update record.used digest (some record.calls) else record.used

def insertion (now : Nat) (digest : δ) (active : Bool) : CacheRecord δ where
  state := record.state.insert cache now digest active
  calls := record.calls + 1
  inserted := Function.update (fun other => if evicted cache record.state digest = some other then none else record.inserted other)
    digest (some (now, active))
  used := Function.update record.used digest (some record.calls)

def cleanup (now : Nat) : CacheRecord δ :=
  { record with state := (record.state.sweep now).2, calls := record.calls + 1 }

def step (event : CacheEvent δ) : CacheRecord δ :=
  match event.call with
  | .get digest => record.lookup event.now digest
  | .insert digest active => record.insertion cache event.now digest active
  | .sweep => record.cleanup event.now

end Steps

def replay (cache : IntrospectionCache) (events : List (CacheEvent δ)) : CacheRecord δ := events.foldl (step cache) empty

/-- The cache agrees with its history up to a time. -/
structure Faithful (cache : IntrospectionCache) (record : CacheRecord δ) (now : Nat) : Prop where
  sized : Sized cache record.state
  nextOrder_le : record.state.nextOrder ≤ record.calls
  filed : ∀ digest entry, record.state.entries.get digest = some entry →
    entry.lastAccess ≤ now ∧ entry.order < record.state.nextOrder ∧ ∃ i < record.calls, record.used digest = some i
  answers : ∀ digest entry, record.state.entries.get digest = some entry →
    ∃ time, record.inserted digest = some (time, entry.active) ∧ entry.expiresAt = time + Duration.fromSecs cache.ttlSecs
  lost : ∀ digest time active, record.inserted digest = some (time, active) → record.state.entries.get digest = none →
    time + Duration.fromSecs cache.ttlSecs ≤ now
  ordered : ∀ a b d e i j, record.state.entries.get a = some d → record.state.entries.get b = some e →
    record.used a = some i → record.used b = some j → i ≤ j → a = b ∨ i < j ∧ d.recency a < e.recency b

variable {cache : IntrospectionCache} {record : CacheRecord δ} {now later : Nat} {digest : δ} {entry : CacheEntry}

private theorem faithful_empty (cache : IntrospectionCache) (now : Nat) : Faithful cache (empty : CacheRecord δ) now where
  sized := sized_empty cache
  nextOrder_le := le_rfl
  filed := by
    intro digest entry h
    cases h
  answers := by
    intro digest entry h
    cases h
  lost := by
    intro digest time active h
    cases h
  ordered := by
    intro a b d e i j h
    cases h

/-- Removing entries keeps the agreement when what is lost has expired or is no longer
recorded as inserted. -/
theorem Faithful.restrict (h : Faithful cache record now) (next : CacheRecord δ) (hnow : now ≤ later)
    (hsized : Sized cache next.state) (horder : next.state.nextOrder = record.state.nextOrder)
    (hcalls : record.calls ≤ next.calls) (hused : next.used = record.used)
    (hsub : ∀ digest entry, next.state.entries.get digest = some entry →
      record.state.entries.get digest = some entry ∧ next.inserted digest = record.inserted digest)
    (hlost : ∀ digest time active, next.inserted digest = some (time, active) → next.state.entries.get digest = none →
      record.inserted digest = some (time, active) ∧
        (record.state.entries.get digest = none ∨ time + Duration.fromSecs cache.ttlSecs ≤ later)) :
    Faithful cache next later where
  sized := hsized
  nextOrder_le := by
    rw [horder]
    exact h.nextOrder_le.trans hcalls
  filed := by
    intro digest entry hget
    obtain ⟨haccess, hlt, i, hi, hu⟩ := h.filed digest entry (hsub digest entry hget).1
    rw [horder, hused]
    exact ⟨haccess.trans hnow, hlt, i, hi.trans_le hcalls, hu⟩
  answers := by
    intro digest entry hget
    obtain ⟨hold, hinserted⟩ := hsub digest entry hget
    rw [hinserted]
    exact h.answers digest entry hold
  lost := by
    intro digest time active hinserted hnone
    obtain ⟨hold, hgone | hexpired⟩ := hlost digest time active hinserted hnone
    · exact (h.lost digest time active hold hgone).trans hnow
    · exact hexpired
  ordered := by
    intro a b d e i j ha hb
    rw [hused]
    exact h.ordered a b d e i j (hsub a d ha).1 (hsub b e hb).1

private theorem Faithful.mono (h : Faithful cache record now) (hnow : now ≤ later) : Faithful cache record later :=
  h.restrict record hnow h.sized rfl le_rfl rfl (fun _ _ hget => ⟨hget, rfl⟩)
    fun _ _ _ hinserted hnone => ⟨hinserted, .inl hnone⟩

def drop (record : CacheRecord δ) (digest : δ) (entry : CacheEntry) : CacheRecord δ :=
  { record with state := record.state.forget digest entry, inserted := Function.update record.inserted digest none }

def place (record : CacheRecord δ) (digest : δ) (time : Nat) (active : Bool) (expiresAt now : Nat) : CacheRecord δ where
  state := record.state.file digest active expiresAt now
  calls := record.calls + 1
  inserted := Function.update record.inserted digest (some (time, active))
  used := Function.update record.used digest (some record.calls)

section Placed
variable {time expiresAt : Nat} {active : Bool}

private theorem place_used (other : δ) :
    (record.place digest time active expiresAt now).used other = if other = digest then some record.calls else record.used other :=
  Function.update_apply ..

private theorem place_inserted (other : δ) :
    (record.place digest time active expiresAt now).inserted other =
      if other = digest then some (time, active) else record.inserted other :=
  Function.update_apply ..

private theorem place_get {other : δ} :
    (record.place digest time active expiresAt now).state.entries.get other = some entry ↔
      other = digest ∧ entry = ⟨active, expiresAt, now, record.state.nextOrder⟩ ∨
        other ≠ digest ∧ record.state.entries.get other = some entry :=
  FiniteMap.get_insert_some

end Placed

private theorem Faithful.drop (h : Faithful cache record now) (hget : record.state.entries.get digest = some entry) :
    Faithful cache (record.drop digest entry) now := by
  have hinserted : ∀ other, (record.drop digest entry).inserted other = if other = digest then none else record.inserted other :=
    fun other => Function.update_apply ..
  refine h.restrict (record.drop digest entry) le_rfl (h.sized.forget hget).1 rfl le_rfl rfl ?_ ?_
  · intro other e hother
    obtain ⟨hne, hold⟩ := FiniteMap.get_remove_some.mp hother
    exact ⟨hold, (hinserted other).trans (if_neg hne)⟩
  · intro other time active hsome hnone
    rw [hinserted] at hsome
    split at hsome
    · cases hsome
    · next hne => exact ⟨hsome, .inl ((FiniteMap.get_remove_none.mp hnone).resolve_left hne)⟩

private theorem recency_lt {δ : Type} [LinearOrder δ] {d e : CacheEntry} (haccess : d.lastAccess ≤ e.lastAccess)
    (horder : d.order < e.order) (a b : δ) : d.recency a < e.recency b := by
  rw [CacheEntry.recency, CacheEntry.recency, Prod.Lex.toLex_lt_toLex]
  rcases haccess.lt_or_eq with hlt | heq
  · exact .inl hlt
  · exact .inr ⟨heq, Prod.Lex.toLex_lt_toLex.mpr (.inl horder)⟩

/-- Filing an entry keeps the agreement while orders do not wrap around. -/
theorem Faithful.place (h : Faithful cache record now) (hnow : now ≤ later) (hget : record.state.entries.get digest = none)
    (hroom : record.state.entries.len < cache.maxEntries) (hcalls : record.calls + 1 < 2 ^ 64) (time : Nat) (active : Bool) :
    Faithful cache (record.place digest time active (time + Duration.fromSecs cache.ttlSecs) later) later := by
  have hle := h.nextOrder_le
  have horder : (record.state.nextOrder + 1) % 2 ^ 64 = record.state.nextOrder + 1 := Nat.mod_eq_of_lt (by omega)
  have hnext : (record.place digest time active (time + Duration.fromSecs cache.ttlSecs) later).state.nextOrder =
      record.state.nextOrder + 1 := horder
  refine ⟨h.sized.file hget hroom _ _ _, ?_, ?_, ?_, ?_, ?_⟩
  · rw [hnext]
    exact Nat.succ_le_succ hle
  · intro other e hother
    rw [hnext, place_used]
    rcases place_get.mp hother with ⟨rfl, rfl⟩ | ⟨hne, hold⟩
    · exact ⟨le_rfl, Nat.lt_succ_self _, record.calls, Nat.lt_succ_self _, if_pos rfl⟩
    · obtain ⟨haccess, hlt, i, hi, hu⟩ := h.filed other e hold
      exact ⟨haccess.trans hnow, hlt.trans (Nat.lt_succ_self _), i, hi.trans (Nat.lt_succ_self _), (if_neg hne).trans hu⟩
  · intro other e hother
    rw [place_inserted]
    rcases place_get.mp hother with ⟨rfl, rfl⟩ | ⟨hne, hold⟩
    · exact ⟨time, if_pos rfl, rfl⟩
    · obtain ⟨s, hs, hexpires⟩ := h.answers other e hold
      exact ⟨s, (if_neg hne).trans hs, hexpires⟩
  · intro other s a hinserted hnone
    have hne : other ≠ digest := by
      rintro rfl
      cases hnone.symm.trans (place_get.mpr (.inl ⟨rfl, rfl⟩))
    have hgone : (record.state.entries.insert digest _).get other = none := hnone
    rw [FiniteMap.get_insert, if_neg hne] at hgone
    rw [place_inserted, if_neg hne] at hinserted
    exact (h.lost other s a hinserted hgone).trans hnow
  · intro a b d e i j ha hb hi hj hij
    rw [place_used] at hi hj
    rcases place_get.mp ha with ⟨hda, hd⟩ | ⟨hna, holda⟩
    · rcases place_get.mp hb with ⟨hdb, -⟩ | ⟨hnb, holdb⟩
      · exact .inl (hda.trans hdb.symm)
      · -- no older entry was used at this call or after it
        obtain ⟨-, -, k, hk, hu⟩ := h.filed b e holdb
        rw [if_pos hda, Option.some.injEq] at hi
        rw [if_neg hnb, hu, Option.some.injEq] at hj
        omega
    · rw [if_neg hna] at hi
      rcases place_get.mp hb with ⟨hdb, he⟩ | ⟨hnb, holdb⟩
      · obtain ⟨haccess, hlt, k, hk, hu⟩ := h.filed a d holda
        rw [if_pos hdb, Option.some.injEq] at hj
        rw [hu, Option.some.injEq] at hi
        rw [he]
        exact .inr ⟨by omega, recency_lt (haccess.trans hnow) hlt a b⟩
      · rw [if_neg hnb] at hj
        exact h.ordered a b d e i j holda holdb hi hj hij

/-- A lookup keeps the agreement. -/
theorem Faithful.lookup (h : Faithful cache record now) (hnow : now ≤ later) (hcalls : record.calls + 1 < 2 ^ 64) (digest : δ) :
    Faithful cache (record.lookup later digest) later := by
  rcases get_cases record.state later digest with ⟨hget, heq⟩ | ⟨entry, hget, hle, heq⟩ | ⟨entry, hget, hlt, heq⟩
  · rw [CacheRecord.lookup, heq]
    exact h.restrict _ hnow h.sized rfl (Nat.le_succ _) rfl (fun _ _ hother => ⟨hother, rfl⟩)
      fun _ _ _ hinserted hnone => ⟨hinserted, .inl hnone⟩
  · rw [CacheRecord.lookup, heq]
    refine h.restrict _ hnow (h.sized.forget hget).1 rfl (Nat.le_succ _) rfl ?_ ?_
    · intro other e hother
      exact ⟨(FiniteMap.get_remove_some.mp hother).2, rfl⟩
    · intro other time active hinserted hnone
      refine ⟨hinserted, ?_⟩
      rcases FiniteMap.get_remove_none.mp hnone with rfl | hgone
      · obtain ⟨s, hs, hexpires⟩ := h.answers other entry hget
        cases hs.symm.trans hinserted
        exact .inr (hexpires ▸ hle)
      · exact .inl hgone
  · -- the entry is filed for the insertion it answers already
    obtain ⟨time, htime, hexpires⟩ := h.answers digest entry hget
    have hplace := (h.drop hget).place hnow (FiniteMap.get_remove_self _ _) (h.sized.forget hget).2 hcalls time entry.active
    have heqr : record.lookup later digest =
        (record.drop digest entry).place digest time entry.active (time + Duration.fromSecs cache.ttlSecs) later := by
      rw [CacheRecord.lookup, heq, CacheRecord.place, CacheRecord.drop, Function.update_idem, ← htime, Function.update_eq_self,
        ← hexpires]
      rfl
    rw [heqr]
    exact hplace

/-- An insertion keeps the agreement. -/
theorem Faithful.insertion (h : Faithful cache record now) (hnow : now ≤ later) (hcalls : record.calls + 1 < 2 ^ 64)
    (hpos : 0 < cache.maxEntries) (digest : δ) (active : Bool) :
    Faithful cache (record.insertion cache later digest active) later := by
  rcases h.sized.tracked.insert_cases cache later digest active with ⟨previous, hget, hnone, heq⟩ |
    ⟨victim, entry, hget, hsome, hvictim, -, heq⟩ | ⟨hget, hnone, hroom, heq⟩
  · have heqr : record.insertion cache later digest active =
        (record.drop digest previous).place digest later active (later + Duration.fromSecs cache.ttlSecs) later := by
      rw [CacheRecord.insertion, heq, hnone, CacheRecord.place, CacheRecord.drop, Function.update_idem]
      rfl
    rw [heqr]
    exact (h.drop hget).place hnow (FiniteMap.get_remove_self _ _) (h.sized.forget hget).2 hcalls later active
  · have hinserted : (fun other => if evicted cache record.state digest = some other then none else record.inserted other) =
        Function.update record.inserted victim none := by
      funext other
      rw [hsome, Function.update_apply]
      simp only [Option.some.injEq, eq_comm]
    have heqr : record.insertion cache later digest active =
        (record.drop victim entry).place digest later active (later + Duration.fromSecs cache.ttlSecs) later := by
      rw [CacheRecord.insertion, heq, hinserted, CacheRecord.place, CacheRecord.drop]
    have hgone : (record.drop victim entry).state.entries.get digest = none := FiniteMap.get_remove_none.mpr (.inr hget)
    rw [heqr]
    exact (h.drop hvictim).place hnow hgone (h.sized.forget hvictim).2 hcalls later active
  · have heqr : record.insertion cache later digest active =
        record.place digest later active (later + Duration.fromSecs cache.ttlSecs) later := by
      rw [CacheRecord.insertion, heq, hnone, CacheRecord.place]
      rfl
    rw [heqr]
    exact h.place hnow hget (hroom.elim id fun hzero => hzero ▸ hpos) hcalls later active

/-- A sweep keeps the agreement. -/
theorem Faithful.cleanup (h : Faithful cache record now) (hnow : now ≤ later) : Faithful cache (record.cleanup later) later := by
  have horder := (foldl_discard (record.state.expired later) h.sized.tracked).2.2.1
  refine h.restrict (record.cleanup later) hnow (h.sized.sweep later) horder (Nat.le_succ _) rfl ?_ ?_
  · intro other e hother
    exact ⟨((get_sweep h.sized.tracked).mp hother).1, rfl⟩
  · intro other time active hinserted hnone
    refine ⟨hinserted, ?_⟩
    cases hget : record.state.entries.get other with
    | none => exact .inl rfl
    | some entry =>
      obtain ⟨s, hs, hexpires⟩ := h.answers other entry hget
      cases hs.symm.trans hinserted
      rw [← hexpires]
      refine .inr (Nat.le_of_not_lt fun hlt => ?_)
      cases hnone.symm.trans ((get_sweep h.sized.tracked).mpr ⟨hget, hlt⟩)

private theorem Faithful.step (h : Faithful cache record now) {event : CacheEvent δ} (hnow : now ≤ event.now)
    (hcalls : record.calls + 1 < 2 ^ 64) (hpos : 0 < cache.maxEntries) :
    Faithful cache (record.step cache event) event.now := by
  obtain ⟨later, call⟩ := event
  cases call with
  | get digest => exact h.lookup hnow hcalls digest
  | insert digest active => exact h.insertion hnow hcalls hpos digest active
  | sweep => exact h.cleanup hnow

private theorem step_calls (event : CacheEvent δ) : (record.step cache event).calls = record.calls + 1 := by
  obtain ⟨later, call⟩ := event
  cases call <;> rfl

theorem replay_concat (cache : IntrospectionCache) (events : List (CacheEvent δ)) (event : CacheEvent δ) :
    replay cache (events ++ [event]) = (replay cache events).step cache event :=
  List.foldl_concat ..

private theorem Sized.step {record : CacheRecord δ} (h : Sized cache record.state) (hpos : 0 < cache.maxEntries) (event : CacheEvent δ) :
    Sized cache (record.step cache event).state := by
  obtain ⟨later, call⟩ := event
  cases call with
  | get digest => exact h.get later digest
  | insert digest active => exact h.insert hpos later digest active
  | sweep => exact h.sweep later

/-- The recency set is exact and the capacity kept in every state of every run. -/
theorem sized_replay (hpos : 0 < cache.maxEntries) (events : List (CacheEvent δ)) : Sized cache (replay cache events).state := by
  induction events using List.reverseRecOn with
  | nil => exact sized_empty cache
  | append_singleton events event ih =>
    rw [replay_concat]
    exact Sized.step ih hpos event

private theorem replay_calls (cache : IntrospectionCache) (events : List (CacheEvent δ)) :
    (replay cache events).calls = events.length := by
  induction events using List.reverseRecOn with
  | nil => rfl
  | append_singleton events event ih => rw [replay_concat, step_calls, ih, List.length_append, List.length_singleton]

/-- Every run keeps the agreement, as long as fewer than 2^64 calls are made. -/
theorem faithful_replay {events : List (CacheEvent δ)} (hclock : NonDecreasing events) (hlen : events.length < 2 ^ 64)
    (hpos : 0 < cache.maxEntries) (hnow : ∀ event ∈ events, event.now ≤ now) :
    Faithful cache (replay cache events) now := by
  induction events using List.reverseRecOn generalizing now with
  | nil => exact faithful_empty cache now
  | append_singleton events event ih =>
    rw [List.length_append, List.length_singleton] at hlen
    obtain ⟨hbefore, -, hlast⟩ := List.pairwise_append.mp hclock
    have hstep := (ih hbefore (by omega) fun e he => hlast e he event (List.mem_singleton_self _)).step le_rfl
      (by rw [replay_calls]; exact hlen) hpos
    rw [replay_concat]
    exact hstep.mono (hnow event (List.mem_append_right _ (List.mem_singleton_self _)))

/-- A lookup answers the latest insertion while it lasts, unless it was evicted. -/
theorem Faithful.get_iff (h : Faithful cache record now) (digest : δ) (answer : Bool) :
    (record.state.get now digest).1 = some answer ↔
      ∃ time, record.inserted digest = some (time, answer) ∧ now < time + Duration.fromSecs cache.ttlSecs := by
  rcases get_cases record.state now digest with ⟨hget, heq⟩ | ⟨entry, hget, hle, heq⟩ | ⟨entry, hget, hlt, heq⟩
  · rw [heq]
    constructor
    · intro hnone
      cases hnone
    · rintro ⟨time, htime, hlt⟩
      have hlost := h.lost digest time answer htime hget
      omega
  · obtain ⟨time, htime, hexpires⟩ := h.answers digest entry hget
    rw [heq, htime]
    constructor
    · intro hnone
      cases hnone
    · rintro ⟨_, hsame, hlt⟩
      cases hsame
      omega
  · obtain ⟨time, htime, hexpires⟩ := h.answers digest entry hget
    rw [heq, htime]
    constructor
    · intro hsome
      cases hsome
      exact ⟨time, rfl, hexpires ▸ hlt⟩
    · rintro ⟨_, hsame, -⟩
      cases hsame
      rfl

/-- What is evicted was used before everything else that is stored. -/
theorem Faithful.evicted_oldest (h : Faithful cache record now) {victim : δ}
    (hv : evicted cache record.state digest = some victim) :
    ∃ i, record.used victim = some i ∧ ∀ other, other ≠ victim → record.state.entries.get other ≠ none →
      ∃ j, record.used other = some j ∧ i < j := by
  obtain ⟨-, ho⟩ : _ ∧ record.state.oldest = some victim := by
    rw [evicted] at hv
    split at hv
    · exact ⟨trivial, hv⟩
    · cases hv
  obtain ⟨entry, hget, hleast, -⟩ := h.sized.tracked.oldest_some ho
  obtain ⟨-, -, i, -, hi⟩ := h.filed victim entry hget
  refine ⟨i, hi, ?_⟩
  intro other hne hstored
  obtain ⟨e, he⟩ := Option.ne_none_iff_exists'.mp hstored
  obtain ⟨-, -, j, -, hj⟩ := h.filed other e he
  refine ⟨j, hj, Nat.lt_of_not_le fun hji => ?_⟩
  rcases h.ordered other victim e entry j i he hget hj hi hji with heq | ⟨-, hlt⟩
  · exact hne heq
  · exact absurd (hleast other e he) (not_le_of_gt hlt)

end CacheRecord
end Srh.Adapters
