import Srh.Adapters.IntrospectionCache

/-! What each call of the introspection cache does to its entries and to the recency
set beside them. -/
namespace Srh.Adapters
open Srh.Lib

def IntrospectionCache.withMaxEntries (ttlSecs maxEntries : Nat) : IntrospectionCache := ⟨ttlSecs, max maxEntries 1⟩

/-- The server's cache is one of the default size. -/
theorem new_eq_withMaxEntries (ttlSecs : Nat) :
    IntrospectionCache.new ttlSecs = .withMaxEntries ttlSecs maxIntrospectionEntries := rfl

private theorem recency_digest {δ : Type} {a b : CacheEntry} {c d : δ} (h : a.recency c = b.recency d) : c = d :=
  congrArg (fun recency : Recency δ => (ofLex (ofLex recency).2).2) h

namespace IntrospectionEntries
variable {δ : Type} [LinearOrder δ]

/-- The recency set holds the recency of every stored entry and nothing else. -/
def Tracked (state : IntrospectionEntries δ) : Prop :=
  ∀ recency, recency ∈ state.lru ↔ ∃ digest entry, state.entries.get digest = some entry ∧ entry.recency digest = recency

def oldest (state : IntrospectionEntries δ) : Option δ :=
  match state.lru.min with
  | none => none
  | some oldest => some (ofLex (ofLex oldest).2).2

/-- The digest that an insertion takes out for want of room. -/
def evicted (cache : IntrospectionCache) (state : IntrospectionEntries δ) (digest : δ) : Option δ :=
  if state.entries.get digest = none ∧ cache.maxEntries ≤ state.entries.len then state.oldest else none

variable {cache : IntrospectionCache} {state : IntrospectionEntries δ} {digest : δ} {entry : CacheEntry}

section Tracking

private theorem tracked_empty : (empty : IntrospectionEntries δ).Tracked := by
  intro recency
  constructor
  · intro h
    exact absurd h (Finset.notMem_empty _)
  · rintro ⟨digest, entry, h, -⟩
    cases h

private theorem Tracked.forget (h : state.Tracked) (he : state.entries.get digest = some entry) :
    (state.forget digest entry).Tracked := by
  intro recency
  rw [IntrospectionEntries.forget, Finset.mem_erase, h recency]
  constructor
  · rintro ⟨hne, other, e, hget, rfl⟩
    refine ⟨other, e, FiniteMap.get_remove_some.mpr ⟨?_, hget⟩, rfl⟩
    rintro rfl
    obtain rfl := Option.some.inj (he.symm.trans hget)
    exact hne rfl
  · rintro ⟨other, e, hget, rfl⟩
    obtain ⟨hne, hget⟩ := FiniteMap.get_remove_some.mp hget
    exact ⟨fun heq => hne (recency_digest heq), other, e, hget, rfl⟩

private theorem Tracked.file (h : state.Tracked) (he : state.entries.get digest = none) (active : Bool) (expiresAt now : Nat) :
    (state.file digest active expiresAt now).Tracked := by
  intro recency
  rw [IntrospectionEntries.file, Finset.mem_insert, h recency]
  constructor
  · rintro (rfl | ⟨other, e, hget, rfl⟩)
    · exact ⟨digest, _, FiniteMap.get_insert_self _ _ _, rfl⟩
    · refine ⟨other, e, FiniteMap.get_insert_some.mpr (.inr ⟨?_, hget⟩), rfl⟩
      rintro rfl
      cases he.symm.trans hget
  · rintro ⟨other, e, hget, rfl⟩
    rcases FiniteMap.get_insert_some.mp hget with ⟨rfl, rfl⟩ | ⟨-, hget⟩
    · exact .inl rfl
    · exact .inr ⟨other, e, hget, rfl⟩

/-- The oldest digest is stored, and no entry is less recent. -/
theorem Tracked.oldest_some (h : state.Tracked) (ho : state.oldest = some digest) :
    ∃ entry, state.entries.get digest = some entry ∧
      (∀ other e, state.entries.get other = some e → entry.recency digest ≤ e.recency other) ∧
      state.evictOldest = state.forget digest entry := by
  rw [oldest] at ho
  split at ho
  · cases ho
  · next least hleast =>
    obtain ⟨other, entry, hget, rfl⟩ := (h least).mp (Finset.mem_of_min hleast)
    obtain rfl : other = digest := Option.some.inj ho
    refine ⟨entry, hget, ?_, ?_⟩
    · intro other e hother
      exact Finset.min_le_of_eq ((h _).mpr ⟨other, e, hother, rfl⟩) hleast
    · rw [evictOldest, hleast]
      rfl

private theorem Tracked.oldest_none (h : state.Tracked) (ho : state.oldest = none) :
    state.evictOldest = state ∧ state.entries.len = 0 := by
  rw [oldest] at ho
  split at ho
  · next hnone =>
    refine ⟨by rw [evictOldest, hnone], ?_⟩
    have hempty := Finset.min_eq_top.mp hnone
    rw [FiniteMap.len, List.length_eq_zero_iff, List.eq_nil_iff_forall_not_mem]
    intro digest hd
    obtain ⟨entry, hget⟩ := FiniteMap.mem_keys.mp hd
    have hmem := (h (entry.recency digest)).mpr ⟨digest, entry, hget, rfl⟩
    rw [hempty] at hmem
    exact absurd hmem (Finset.notMem_empty _)
  · cases ho

end Tracking

section Cases

/-- Everything that a lookup can do: nothing is stored, the entry has expired, or it is
filed anew with its old expiry. -/
theorem get_cases (state : IntrospectionEntries δ) (now : Nat) (digest : δ) :
    (state.entries.get digest = none ∧ state.get now digest = (none, state)) ∨
    (∃ entry, state.entries.get digest = some entry ∧ entry.expiresAt ≤ now ∧
      state.get now digest = (none, state.forget digest entry)) ∨
    ∃ entry, state.entries.get digest = some entry ∧ now < entry.expiresAt ∧
      state.get now digest =
        (some entry.active, (state.forget digest entry).file digest entry.active entry.expiresAt now) := by
  rw [IntrospectionEntries.get]
  cases state.entries.get digest with
  | none => exact .inl ⟨rfl, rfl⟩
  | some entry =>
    by_cases hle : entry.expiresAt ≤ now
    · exact .inr (.inl ⟨entry, rfl, hle, if_pos hle⟩)
    · exact .inr (.inr ⟨entry, rfl, Nat.lt_of_not_le hle, if_neg hle⟩)

/-- Everything that an insertion can do: it replaces, it evicts, or there is room. -/
theorem Tracked.insert_cases (h : state.Tracked) (cache : IntrospectionCache) (now : Nat) (digest : δ) (active : Bool) :
    (∃ previous, state.entries.get digest = some previous ∧ evicted cache state digest = none ∧
      state.insert cache now digest active =
        (state.forget digest previous).file digest active (now + Duration.fromSecs cache.ttlSecs) now) ∨
    (∃ victim entry, state.entries.get digest = none ∧ evicted cache state digest = some victim ∧
      state.entries.get victim = some entry ∧
      (∀ other e, state.entries.get other = some e → entry.recency victim ≤ e.recency other) ∧
      state.insert cache now digest active =
        (state.forget victim entry).file digest active (now + Duration.fromSecs cache.ttlSecs) now) ∨
    (state.entries.get digest = none ∧ evicted cache state digest = none ∧
      (state.entries.len < cache.maxEntries ∨ state.entries.len = 0) ∧
      state.insert cache now digest active = state.file digest active (now + Duration.fromSecs cache.ttlSecs) now) := by
  rw [IntrospectionEntries.insert, evicted]
  cases hget : state.entries.get digest with
  | some previous =>
    refine .inl ⟨previous, rfl, if_neg ?_, rfl⟩
    rintro ⟨h, -⟩
    cases h
  | none =>
    dsimp only
    by_cases hfull : cache.maxEntries ≤ state.entries.len
    · rw [if_pos ⟨rfl, hfull⟩, if_pos hfull]
      cases ho : state.oldest with
      | none =>
        obtain ⟨hsame, hlen⟩ := h.oldest_none ho
        rw [hsame]
        exact .inr (.inr ⟨rfl, rfl, .inr hlen, rfl⟩)
      | some victim =>
        obtain ⟨entry, hvictim, hleast, hevict⟩ := h.oldest_some ho
        rw [hevict]
        exact .inr (.inl ⟨victim, entry, rfl, rfl, hvictim, hleast, rfl⟩)
    · rw [if_neg fun hboth => hfull hboth.2, if_neg hfull]
      exact .inr (.inr ⟨rfl, rfl, .inl (Nat.lt_of_not_le hfull), rfl⟩)

end Cases

section Sweeping

private theorem Tracked.discard (h : state.Tracked) (digest : δ) : (state.discard digest).Tracked := by
  rw [IntrospectionEntries.discard]
  split
  · exact h
  · next entry hget => exact h.forget hget

private theorem get_discard (digest other : δ) :
    (state.discard digest).entries.get other = if other = digest then none else state.entries.get other := by
  rw [IntrospectionEntries.discard]
  split
  · next hnone =>
    split
    · next heq => rw [heq, hnone]
    · rfl
  · exact FiniteMap.get_remove _ _ _

private theorem discard_len_le (digest : δ) : (state.discard digest).entries.len ≤ state.entries.len := by
  rw [IntrospectionEntries.discard]
  split
  · exact le_rfl
  · exact FiniteMap.len_remove_le _ _

private theorem discard_nextOrder (digest : δ) : (state.discard digest).nextOrder = state.nextOrder := by
  rw [IntrospectionEntries.discard]
  split <;> rfl

/-- Discarding a list of digests removes these and nothing else. -/
theorem foldl_discard (digests : List δ) (h : state.Tracked) :
    (digests.foldl IntrospectionEntries.discard state).Tracked ∧
      (digests.foldl IntrospectionEntries.discard state).entries.len ≤ state.entries.len ∧
      (digests.foldl IntrospectionEntries.discard state).nextOrder = state.nextOrder ∧
      ∀ other, (digests.foldl IntrospectionEntries.discard state).entries.get other =
        if other ∈ digests then none else state.entries.get other := by
  induction digests generalizing state with
  | nil => exact ⟨h, le_rfl, rfl, fun other => (if_neg List.not_mem_nil).symm⟩
  | cons digest digests ih =>
    obtain ⟨htracked, hlen, horder, hget⟩ := ih (h.discard digest)
    refine ⟨htracked, hlen.trans (discard_len_le digest), horder.trans (discard_nextOrder digest), ?_⟩
    intro other
    rw [List.foldl_cons, hget, get_discard]
    by_cases hmem : other ∈ digests
    · rw [if_pos hmem, if_pos (List.mem_cons_of_mem _ hmem)]
    · by_cases heq : other = digest
      · rw [if_neg hmem, if_pos heq, if_pos (List.mem_cons.mpr (.inl heq))]
      · rw [if_neg hmem, if_neg heq, if_neg (List.not_mem_cons_of_ne_of_not_mem heq hmem)]

private theorem mem_expired {now : Nat} :
    digest ∈ state.expired now ↔ ∃ entry, state.entries.get digest = some entry ∧ entry.expiresAt ≤ now := by
  rw [expired, List.mem_map]
  constructor
  · rintro ⟨⟨other, entry⟩, hmem, rfl⟩
    obtain ⟨hmem, hle⟩ := List.mem_filter.mp hmem
    exact ⟨entry, FiniteMap.mem_toList.mp hmem, of_decide_eq_true hle⟩
  · rintro ⟨entry, hget, hle⟩
    exact ⟨(digest, entry), List.mem_filter.mpr ⟨FiniteMap.mem_toList.mpr hget, decide_eq_true hle⟩, rfl⟩

/-- A sweep keeps exactly the entries that have not expired. -/
theorem get_sweep {now : Nat} (h : state.Tracked) :
    (state.sweep now).2.entries.get digest = some entry ↔
      state.entries.get digest = some entry ∧ now < entry.expiresAt := by
  rw [IntrospectionEntries.sweep, (foldl_discard _ h).2.2.2]
  split
  · next hmem =>
    obtain ⟨e, he, hle⟩ := mem_expired.mp hmem
    rw [he]
    constructor
    · intro hnone
      cases hnone
    · rintro ⟨heq, hlt⟩
      cases heq
      omega
  · next hmem =>
    rw [iff_self_and]
    intro hget
    by_contra hle
    exact hmem (mem_expired.mpr ⟨entry, hget, Nat.le_of_not_lt hle⟩)

end Sweeping

section Holding

def held (state : IntrospectionEntries δ) (digest : δ) : Option (Bool × Nat) :=
  (state.entries.get digest).map fun entry => (entry.active, entry.expiresAt)

def live (state : IntrospectionEntries δ) (now : Nat) (digest : δ) : Option (Bool × Nat) :=
  (state.held digest).filter fun answer => now < answer.2

private theorem held_forget (digest other : δ) (entry : CacheEntry) :
    (state.forget digest entry).held other = if other = digest then none else state.held other := by
  rw [held, IntrospectionEntries.forget, FiniteMap.get_remove]
  split <;> rfl

private theorem held_file (digest other : δ) (active : Bool) (expiresAt now : Nat) :
    (state.file digest active expiresAt now).held other = if other = digest then some (active, expiresAt) else state.held other := by
  rw [held, IntrospectionEntries.file, FiniteMap.get_insert]
  split <;> rfl

private theorem live_of_get_none {now : Nat} (h : state.entries.get digest = none) : state.live now digest = none := by
  rw [live, held, h]
  rfl

private theorem live_of_expired {now : Nat} (h : state.entries.get digest = some entry) (hle : entry.expiresAt ≤ now) :
    state.live now digest = none := by
  rw [live, held, h, Option.map_some, Option.filter_some, if_neg]
  exact fun hlt => Nat.not_lt.mpr hle (of_decide_eq_true hlt)

private theorem live_of_get_some {now : Nat} (h : state.entries.get digest = some entry) (hlt : now < entry.expiresAt) :
    state.live now digest = some (entry.active, entry.expiresAt) := by
  rw [live, held, h, Option.map_some, Option.filter_some, if_pos (decide_eq_true hlt)]

/-- A lookup answers what is live. -/
theorem get_eq_live (now : Nat) (digest : δ) : (state.get now digest).1 = (state.live now digest).map Prod.fst := by
  rcases get_cases state now digest with ⟨hget, heq⟩ | ⟨entry, hget, hle, heq⟩ | ⟨entry, hget, hlt, heq⟩
  · rw [heq, live_of_get_none hget]
    rfl
  · rw [heq, live_of_expired hget hle]
    rfl
  · rw [heq, live_of_get_some hget hlt]
    rfl

theorem held_get (now : Nat) (digest other : δ) :
    (state.get now digest).2.held other = if other = digest then state.live now digest else state.held other := by
  rcases get_cases state now digest with ⟨hget, heq⟩ | ⟨entry, hget, hle, heq⟩ | ⟨entry, hget, hlt, heq⟩
  · rw [heq, live_of_get_none hget]
    split
    · next hother => rw [held, hother, hget]; rfl
    · rfl
  · rw [heq, live_of_expired hget hle, held_forget]
  · rw [heq, live_of_get_some hget hlt, held_file]
    split
    · rfl
    · next hne => rw [held_forget, if_neg hne]

theorem held_sweep (h : state.Tracked) (now : Nat) (digest : δ) : (state.sweep now).2.held digest = state.live now digest := by
  apply Option.ext
  rintro ⟨active, expiresAt⟩
  simp only [held, live, Option.map_eq_some_iff, Option.filter_eq_some_iff, get_sweep h, decide_eq_true_eq]
  constructor
  · rintro ⟨entry, ⟨hget, hlt⟩, heq⟩
    cases heq
    exact ⟨⟨entry, hget, rfl⟩, hlt⟩
  · rintro ⟨⟨entry, hget, heq⟩, hlt⟩
    cases heq
    exact ⟨entry, ⟨hget, hlt⟩, rfl⟩

/-- An insertion changes what is held for its own digest and for the one it evicts. -/
theorem held_insert (h : state.Tracked) (now : Nat) (digest other : δ) (active : Bool) :
    (state.insert cache now digest active).held other =
      if other = digest then some (active, now + Duration.fromSecs cache.ttlSecs)
      else if evicted cache state digest = some other then none
      else state.held other := by
  rcases h.insert_cases cache now digest active with ⟨previous, -, hnone, heq⟩ | ⟨victim, entry, -, hsome, -, -, heq⟩ |
    ⟨-, hnone, -, heq⟩
  · rw [heq, held_file, hnone, held_forget]
    split
    · rfl
    · rw [if_neg (by simp)]
  · rw [heq, held_file, held_forget]
    simp only [hsome, Option.some.injEq, eq_comm]
  · rw [heq, held_file, hnone]
    simp

end Holding

section Preserved

structure Sized (cache : IntrospectionCache) (state : IntrospectionEntries δ) : Prop where
  tracked : state.Tracked
  bounded : state.entries.len ≤ cache.maxEntries

theorem sized_empty (cache : IntrospectionCache) : Sized cache (empty : IntrospectionEntries δ) :=
  ⟨tracked_empty, Nat.zero_le _⟩

theorem Sized.forget (h : Sized cache state) (hget : state.entries.get digest = some entry) :
    Sized cache (state.forget digest entry) ∧ (state.forget digest entry).entries.len < cache.maxEntries := by
  have hlen : (state.forget digest entry).entries.len + 1 = state.entries.len := FiniteMap.len_remove_of_get hget
  have hbounded := h.bounded
  exact ⟨⟨h.tracked.forget hget, by omega⟩, by omega⟩

theorem Sized.file (h : Sized cache state) (hget : state.entries.get digest = none)
    (hroom : state.entries.len < cache.maxEntries) (active : Bool) (expiresAt now : Nat) :
    Sized cache (state.file digest active expiresAt now) :=
  ⟨h.tracked.file hget active expiresAt now, (FiniteMap.len_insert_of_get_none _ hget).trans_le hroom⟩

theorem Sized.get (h : Sized cache state) (now : Nat) (digest : δ) : Sized cache (state.get now digest).2 := by
  rcases get_cases state now digest with ⟨-, heq⟩ | ⟨entry, hget, -, heq⟩ | ⟨entry, hget, -, heq⟩
  · rw [heq]
    exact h
  · rw [heq]
    exact (h.forget hget).1
  · rw [heq]
    exact (h.forget hget).1.file (FiniteMap.get_remove_self _ _) (h.forget hget).2 _ _ _

theorem Sized.insert (h : Sized cache state) (hpos : 0 < cache.maxEntries) (now : Nat) (digest : δ) (active : Bool) :
    Sized cache (state.insert cache now digest active) := by
  rcases h.tracked.insert_cases cache now digest active with ⟨previous, hget, -, heq⟩ |
    ⟨victim, entry, hget, -, hvictim, -, heq⟩ | ⟨hget, -, hroom, heq⟩
  · rw [heq]
    exact (h.forget hget).1.file (FiniteMap.get_remove_self _ _) (h.forget hget).2 _ _ _
  · have hgone : (state.forget victim entry).entries.get digest = none := FiniteMap.get_remove_none.mpr (.inr hget)
    rw [heq]
    exact (h.forget hvictim).1.file hgone (h.forget hvictim).2 _ _ _
  · rw [heq]
    exact h.file hget (hroom.elim id fun hzero => hzero ▸ hpos) _ _ _

theorem Sized.sweep (h : Sized cache state) (now : Nat) : Sized cache (state.sweep now).2 := by
  obtain ⟨htracked, hlen, -, -⟩ := foldl_discard (state.expired now) h.tracked
  exact ⟨htracked, hlen.trans h.bounded⟩

end Preserved
end IntrospectionEntries
end Srh.Adapters
