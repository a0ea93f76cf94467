import Srh.Adapters.HttpJwks

/-! Where the keys of the JWKS source come from. The relations D and F hold what the
outside has told: the addresses that discovery named and the sets fetched from them. -/
namespace Srh.Adapters.HttpJwks
open Srh.Lib Srh.Domain

/-- A published key that may verify signatures under its id: it is not for another use,
verification is among its operations, and its type fits its algorithm. -/
structure Jwk.Verifies (jwk : Jwk) (kid : String) (algorithm : JwtAlgorithm) : Prop where
  keyId : jwk.keyId = some kid
  publicKeyUse : jwk.publicKeyUse ≠ some .other
  keyOperations : ∀ operations, jwk.keyOperations = some operations → .verify ∈ operations
  algorithm : HttpJwks.keyAlgorithm jwk.algorithm jwk.keyAlgorithm = some algorithm

theorem cacheableKey_verifies {jwk : Jwk} {kid : String} {key : CachedKey} (h : cacheableKey jwk = some (kid, key)) :
    jwk.Verifies kid key.algorithm ∧ key.material = jwk.text := by
  rw [cacheableKey] at h
  split at h
  · cases h
  · rename_i hu
    rw [not_or] at hu
    obtain ⟨id, hid, h⟩ := Option.bind_eq_some_iff.mp h
    obtain ⟨algorithm, ha, h⟩ := Option.bind_eq_some_iff.mp h
    cases h
    refine ⟨⟨hid, hu.1, ?_, ha⟩, rfl⟩
    intro operations ho
    simpa [ho] using hu.2

def Advanced (s : State) (i : Nat) (kid : String) (t : State) : Prop :=
  (∃ phase, t.calls = Function.update s.calls i (some ⟨kid, phase⟩) ∧ t.returned = s.returned) ∨
    ∃ cache result, t.calls = Function.update s.calls i none ∧ t.returned = ⟨kid, cache, result⟩ :: s.returned

section Shape
variable {s t : State} {i : Nat} {kid : String} {phase : Phase} {refreshAfter : Nat}

theorem go_advanced (ht : go refreshAfter s i kid phase = some t) : Advanced s i kid t := by
  cases phase with
  | locking forced =>
    rw [go] at ht
    split at ht
    · cases ht
      exact .inl ⟨_, rfl, rfl⟩
    · cases ht
  | considering forced now =>
    rw [go] at ht
    split at ht
    · cases ht
      exact .inl ⟨_, rfl, rfl⟩
    · cases ht
      exact .inl ⟨_, rfl, rfl⟩
  | reading forced =>
    rw [go] at ht
    split at ht
    · cases ht
      exact .inr ⟨_, _, rfl, rfl⟩
    · cases ht
      split
      · exact .inr ⟨_, _, rfl, rfl⟩
      · exact .inl ⟨_, rfl, rfl⟩
  | discovering forced now => cases ht
  | fetching forced now uri => cases ht
  | _ =>
    cases ht
    exact .inl ⟨_, rfl, rfl⟩

theorem discovered_advanced {answer : Except JwksError String} (ht : discovered s i kid answer phase = some t) :
    Advanced s i kid t := by
  cases phase with
  | discovering forced now =>
    cases answer with
    | ok uri =>
      cases ht
      exact .inl ⟨_, rfl, rfl⟩
    | error error =>
      cases ht
      exact .inr ⟨_, _, rfl, rfl⟩
  | _ => cases ht

theorem fetched_advanced {answer : Except JwksError (List Jwk)} (ht : fetched s i kid answer phase = some t) :
    Advanced s i kid t := by
  cases phase with
  | fetching forced now uri =>
    cases answer with
    | ok jwks =>
      cases ht
      exact .inl ⟨_, rfl, rfl⟩
    | error error =>
      cases ht
      exact .inr ⟨_, _, rfl, rfl⟩
  | _ => cases ht

end Shape

section Provenance
variable (D : String → Prop) (F : String → List Jwk → Prop)

def Published (kid : String) (key : CachedKey) : Prop :=
  ∃ uri jwks jwk, F uri jwks ∧ jwk ∈ jwks ∧ cacheableKey jwk = some (kid, key)

def Vetted (keys : FiniteMap String CachedKey) : Prop := ∀ kid key, keys.get kid = some key → Published F kid key

/-- A refresh fetches from a discovered address and installs what it has fetched. -/
def Phase.Sourced : Phase → Prop
  | fetching _ _ uri => D uri
  | installing _ _ uri keys => D uri ∧ Vetted F keys
  | _ => True

structure Sourced (s : State) : Prop where
  keys : Vetted F s.cache.keys
  jwksUri : ∀ uri, s.cache.jwksUri = some uri → D uri
  calls : ∀ i call, s.calls i = some call → call.phase.Sourced D F
  returned : ∀ r ∈ s.returned, ∀ key, r.result = .ok key → Published F r.kid key

def Event.Told (s : State) : Event → Prop
  | .discovered _ (.ok uri) => D uri
  | .fetched i (.ok jwks) => ∀ kid forced now uri, s.calls i = some ⟨kid, .fetching forced now uri⟩ → F uri jwks
  | _ => True

variable {D F} {s t : State} {i : Nat} {kid : String} {refreshAfter : Nat}

private theorem vetted_keySet {uri : String} {jwks : List Jwk} (h : F uri jwks) : Vetted F (keySet jwks) := by
  -- every insertion is of an entry of the set
  have hfold : ∀ (entries : List (String × CachedKey)) (keys : FiniteMap String CachedKey),
      (∀ entry ∈ entries, Published F entry.1 entry.2) → Vetted F keys →
      Vetted F (entries.foldl (fun keys entry => keys.insert entry.1 entry.2) keys) := by
    intro entries
    induction entries with
    | nil => exact fun keys _ hk => hk
    | cons entry entries ih =>
      intro keys he hk
      apply ih _ fun e hm => he e (List.mem_cons_of_mem _ hm)
      intro kid key hget
      rcases FiniteMap.get_insert_some.mp hget with ⟨rfl, rfl⟩ | ⟨-, hget⟩
      · exact he entry List.mem_cons_self
      · exact hk kid key hget
  apply hfold
  · intro entry he
    obtain ⟨jwk, hm, hc⟩ := List.mem_filterMap.mp he
    exact ⟨uri, jwks, jwk, h, hm, hc⟩
  · rintro kid key ⟨⟩

private theorem Sourced.set (h : Sourced D F s) {call : Option Call} (hcall : ∀ c, call = some c → c.phase.Sourced D F) :
    Sourced D F (s.set i call) := by
  refine { h with calls := ?_ }
  intro j c hc
  simp only [State.set, Function.update_apply] at hc
  split at hc
  · exact hcall c hc
  · exact h.calls j c hc

private theorem Sourced.move (h : Sourced D F s) {phase : Phase} (hp : phase.Sourced D F) : Sourced D F (s.move i kid phase) := by
  apply h.set
  rintro c ⟨⟩
  exact hp

private theorem Sourced.finish (h : Sourced D F s) {result : Except JwksError CachedKey}
    (hr : ∀ key, result = .ok key → Published F kid key) : Sourced D F (s.finish i kid result) := by
  have hset : Sourced D F (s.set i none) := h.set (by rintro c ⟨⟩)
  refine { hset with returned := ?_ }
  intro r hm
  rcases List.mem_cons.mp hm with rfl | hm
  · exact hr
  · exact h.returned r hm

private theorem Sourced.release (h : Sourced D F s) : Sourced D F s.release := ⟨h.keys, h.jwksUri, h.calls, h.returned⟩

private theorem go_sourced (h : Sourced D F s) {phase : Phase} (hp : phase.Sourced D F) (ht : go refreshAfter s i kid phase = some t) :
    Sourced D F t := by
  cases phase with
  | checking =>
    cases ht
    apply h.move
    split <;> trivial
  | locking forced =>
    rw [go] at ht
    split at ht
    · cases ht
      have hmove : Sourced D F (s.move i kid (.timing forced)) := h.move trivial
      exact ⟨hmove.keys, hmove.jwksUri, hmove.calls, hmove.returned⟩
    · cases ht
  | timing forced =>
    cases ht
    exact h.move trivial
  | considering forced now =>
    rw [go] at ht
    split at ht
    · cases ht
      apply h.move
      split <;> trivial
    · cases ht
      exact h.release.move trivial
  | marking now =>
    cases ht
    have hmove : Sourced D F (s.move i kid (.resolving true now)) := h.move trivial
    exact ⟨hmove.keys, hmove.jwksUri, hmove.calls, hmove.returned⟩
  | resolving forced now =>
    rw [go] at ht
    cases hu : s.cache.jwksUri with
    | none =>
      rw [hu] at ht
      cases ht
      have hmove : Sourced D F (s.move i kid (.discovering forced now)) := h.move trivial
      exact ⟨hmove.keys, hmove.jwksUri, hmove.calls, hmove.returned⟩
    | some uri =>
      rw [hu] at ht
      cases ht
      have hmove : Sourced D F (s.move i kid (.fetching forced now uri)) := h.move (h.jwksUri uri hu)
      exact ⟨hmove.keys, hmove.jwksUri, hmove.calls, hmove.returned⟩
  | discovering forced now => cases ht
  | fetching forced now uri => cases ht
  | installing forced now uri keys =>
    cases ht
    have hmove : Sourced D F (s.release.move i kid (.reading forced)) := h.release.move trivial
    refine ⟨hp.2, ?_, hmove.calls, hmove.returned⟩
    rintro _ ⟨⟩
    exact hp.1
  | reading forced =>
    rw [go] at ht
    split at ht
    · rename_i key hk
      cases ht
      apply h.finish
      rintro _ ⟨⟩
      exact h.keys kid key hk
    · cases ht
      split
      · apply h.finish
        rintro _ ⟨⟩
      · exact h.move trivial

theorem sourced_step {event : Event} (h : Sourced D F s) (he : event.Told D F s) (ht : step refreshAfter s event = some t) :
    Sourced D F t := by
  cases event with
  | start i kid =>
    rw [step] at ht
    split at ht
    · cases ht
      exact h.move trivial
    · cases ht
  | go i =>
    obtain ⟨call, hc, ht⟩ := Option.bind_eq_some_iff.mp ht
    exact go_sourced h (h.calls i call hc) ht
  | discovered i answer =>
    obtain ⟨⟨kid, phase⟩, hc, ht⟩ := Option.bind_eq_some_iff.mp ht
    cases phase with
    | discovering forced now =>
      cases answer with
      | ok uri =>
        cases ht
        exact h.move he
      | error error =>
        cases ht
        apply h.release.finish
        rintro _ ⟨⟩
    | _ => cases ht
  | fetched i answer =>
    obtain ⟨⟨kid, phase⟩, hc, ht⟩ := Option.bind_eq_some_iff.mp ht
    cases phase with
    | fetching forced now uri =>
      cases answer with
      | ok jwks =>
        cases ht
        exact h.move ⟨h.calls i _ hc, vetted_keySet (he kid forced now uri hc)⟩
      | error error =>
        cases ht
        apply h.release.finish
        rintro _ ⟨⟩
    | _ => cases ht
  | cancel i =>
    obtain ⟨call, hc, rfl⟩ := Option.map_eq_some_iff.mp ht
    rw [cancel]
    apply Sourced.set
    · split
      · exact h.release
      · exact h
    · rintro c ⟨⟩
  | tick duration =>
    cases ht
    exact ⟨h.keys, h.jwksUri, h.calls, h.returned⟩

theorem sourced_init : Sourced D F .init := by
  constructor
  case keys => rintro kid key ⟨⟩
  case jwksUri => rintro uri ⟨⟩
  case calls => rintro i call ⟨⟩
  case returned => rintro r ⟨⟩

end Provenance

section Mono
variable {D D' : String → Prop} {F F' : String → List Jwk → Prop} (hd : ∀ uri, D uri → D' uri)
  (hf : ∀ uri jwks, F uri jwks → F' uri jwks)
include hf

theorem Published.mono {kid : String} {key : CachedKey} (h : Published F kid key) : Published F' kid key := by
  obtain ⟨uri, jwks, jwk, h, hm, hc⟩ := h
  exact ⟨uri, jwks, jwk, hf uri jwks h, hm, hc⟩

include hd

private theorem Phase.Sourced.mono {phase : Phase} (h : phase.Sourced D F) : phase.Sourced D' F' := by
  cases phase with
  | fetching forced now uri => exact hd uri h
  | installing forced now uri keys => exact ⟨hd uri h.1, fun kid key hk => (h.2 kid key hk).mono hf⟩
  | _ => trivial

theorem Sourced.mono {s : State} (h : Sourced D F s) : Sourced D' F' s where
  keys kid key hk := (h.keys kid key hk).mono hf
  jwksUri uri hu := hd uri (h.jwksUri uri hu)
  calls i call hc := (h.calls i call hc).mono hd hf
  returned r hr key hk := (h.returned r hr key hk).mono hf

end Mono
end Srh.Adapters.HttpJwks
