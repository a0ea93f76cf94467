import Mathlib.Data.Finset.Max
import Mathlib.Data.Prod.Lex
import Srh.Lib.Duration
import Srh.Lib.FiniteMap

/-! The introspection cache of adapters/jwt_auth.rs, over any ordered type of
digests. An Instant is a nanosecond count; an ordered set is a finite set whose
least element can be taken. -/
namespace Srh.Adapters
open Srh.Lib

def maxIntrospectionEntries : Nat := 100000

structure CacheEntry where
  active : Bool
  expiresAt : Nat
  lastAccess : Nat
  order : Nat
  deriving DecidableEq, Repr

/-- Recency: the last access, its order and the digest. -/
abbrev Recency (δ : Type) := Nat ×ₗ Nat ×ₗ δ

structure IntrospectionEntries (δ : Type) where
  entries : FiniteMap δ CacheEntry
  lru : Finset (Recency δ)
  nextOrder : Nat

inductive CacheCall (δ : Type) where
  | get (digest : δ)
  | insert (digest : δ) (active : Bool)
  | sweep
  deriving DecidableEq, Repr

structure IntrospectionCache where
  ttlSecs : Nat
  maxEntries : Nat

def IntrospectionCache.new (ttlSecs : Nat) : IntrospectionCache := ⟨ttlSecs, maxIntrospectionEntries⟩

def CacheEntry.recency {δ : Type} (entry : CacheEntry) (digest : δ) : Recency δ :=
  toLex (entry.lastAccess, toLex (entry.order, digest))

namespace IntrospectionEntries
variable {δ : Type}

def empty : IntrospectionEntries δ := ⟨.empty, ∅, 0⟩

variable [LinearOrder δ] (state : IntrospectionEntries δ)

def forget (digest : δ) (entry : CacheEntry) : IntrospectionEntries δ :=
  { state with entries := state.entries.remove digest, lru := state.lru.erase (entry.recency digest) }

def file (digest : δ) (active : Bool) (expiresAt now : Nat) : IntrospectionEntries δ :=
  let entry : CacheEntry := ⟨active, expiresAt, now, state.nextOrder⟩
  { entries := state.entries.insert digest entry
    lru := insert (entry.recency digest) state.lru
    nextOrder := (state.nextOrder + 1) % 2 ^ 64 }

def get (now : Nat) (digest : δ) : Option Bool × IntrospectionEntries δ :=
  match state.entries.get digest with
  | none => (none, state)
  | some entry =>
    let state := state.forget digest entry
    if entry.expiresAt ≤ now then (none, state)
    else (some entry.active, state.file digest entry.active entry.expiresAt now)

/-- Makes room: the entry with the least recency goes. -/
def evictOldest : IntrospectionEntries δ :=
  match state.lru.min with
  | none => state
  | some oldest =>
    { state with entries := state.entries.remove (ofLex (ofLex oldest).2).2, lru := state.lru.erase oldest }

def insert (cache : IntrospectionCache) (now : Nat) (digest : δ) (active : Bool) : IntrospectionEntries δ :=
  let state := match state.entries.get digest with
    | some previous => state.forget digest previous
    | none => if cache.maxEntries ≤ state.entries.len then state.evictOldest else state
  state.file digest active (now + Duration.fromSecs cache.ttlSecs) now

def expired (now : Nat) : List δ := (state.entries.toList.filter fun e => e.2.expiresAt ≤ now).map Prod.fst

def discard (digest : δ) : IntrospectionEntries δ :=
  match state.entries.get digest with
  | none => state
  | some entry => state.forget digest entry

def sweep (now : Nat) : Nat × IntrospectionEntries δ :=
  ((state.expired now).length, (state.expired now).foldl discard state)

/-- The stored answer for a digest, expired or not. -/
def stored (digest : δ) : Option Bool := (state.entries.get digest).map CacheEntry.active

section Stored
variable {state} {digest other : δ} {active answer : Bool} {now expiresAt : Nat}

private theorem stored_of_remove {lru : Finset (Recency δ)} {nextOrder : Nat}
    (h : (⟨state.entries.remove digest, lru, nextOrder⟩ : IntrospectionEntries δ).stored other = some answer) :
    other ≠ digest ∧ state.stored other = some answer := by
  rw [stored, FiniteMap.get_remove] at h
  split at h
  · cases h
  · exact ⟨‹_›, h⟩

private theorem stored_file (h : (state.file digest active expiresAt now).stored other = some answer) :
    (other = digest ∧ answer = active) ∨ (other ≠ digest ∧ state.stored other = some answer) := by
  rw [stored, file, FiniteMap.get_insert] at h
  split at h
  · cases h
    exact .inl ⟨‹_›, rfl⟩
  · exact .inr ⟨‹_›, h⟩

/-- A lookup answers what is stored. -/
theorem get_answer (h : (state.get now digest).1 = some answer) : state.stored digest = some answer := by
  rw [get] at h
  cases he : state.entries.get digest with
  | none =>
    rw [he] at h
    cases h
  | some entry =>
    rw [he] at h
    simp only at h
    split at h
    · cases h
    · rw [stored, he]
      exact h

theorem stored_get (h : (state.get now digest).2.stored other = some answer) : state.stored other = some answer := by
  rw [get] at h
  cases he : state.entries.get digest with
  | none =>
    rw [he] at h
    exact h
  | some entry =>
    rw [he] at h
    simp only at h
    split at h
    · exact (stored_of_remove h).2
    · rcases stored_file h with ⟨rfl, rfl⟩ | ⟨-, h⟩
      · rw [stored, he]
        rfl
      · exact (stored_of_remove h).2

private theorem stored_evictOldest (h : state.evictOldest.stored other = some answer) : state.stored other = some answer := by
  rw [evictOldest] at h
  split at h
  · exact h
  · exact (stored_of_remove h).2

/-- An insertion changes the answer of its own digest only, and may lose others. -/
theorem stored_insert {cache : IntrospectionCache} (h : (state.insert cache now digest active).stored other = some answer) :
    (other = digest ∧ answer = active) ∨ (other ≠ digest ∧ state.stored other = some answer) := by
  rw [insert] at h
  refine (stored_file h).imp_right fun ⟨hne, h⟩ => ⟨hne, ?_⟩
  split at h
  · exact (stored_of_remove h).2
  · split at h
    · exact stored_evictOldest h
    · exact h

private theorem stored_discard (h : (state.discard digest).stored other = some answer) : state.stored other = some answer := by
  rw [discard] at h
  split at h
  · exact h
  · exact (stored_of_remove h).2

theorem stored_sweep (h : (state.sweep now).2.stored other = some answer) : state.stored other = some answer := by
  rw [sweep] at h
  generalize state.expired now = digests at h
  induction digests generalizing state with
  | nil => exact h
  | cons digest digests ih => exact stored_discard (ih h)

end Stored
end IntrospectionEntries
end Srh.Adapters
