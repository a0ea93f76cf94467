import Mathlib.Data.List.Lex
import Mathlib.Logic.Function.Basic
import Srh.Adapters.IntrospectionCache
import Srh.Adapters.JwtAuth
import Srh.Lib.Machine

/-! Concurrent validations of one token. A call is suspended at each question of
its dialogue; the key source and the introspection service answer when they
please, and the cache is also used for other tokens. -/
namespace Srh.Adapters.Revocation
open Srh.Lib Srh.Domain Jwt JwtAuth

instance digestOrder : LinearOrder Digest :=
  LinearOrder.lift' (fun digest : Digest => digest.toList.map UInt8.toNat) fun _ _ h =>
    Vector.toList_inj.mp (List.map_injective_iff.mpr (fun _ _ => UInt8.toNat_inj.mp) h)

/-- A call in progress, with what is remembered about it: it started after a
refusal, it was told that the token is inactive, an outage was reported to it. -/
structure Call where
  rest : Authenticating Identity
  late : Bool
  refused : Bool
  outage : Bool

structure Return where
  late : Bool
  outage : Bool
  result : Except AuthError Identity

/-- The cache, the latest clock reading, and what has happened so far: the service
answered inactive, an inactive answer was stored, a call was refused for it. -/
structure State where
  cache : IntrospectionEntries Digest
  clock : Nat
  revoked : Bool
  inactiveStored : Bool
  refusal : Bool
  calls : Nat → Option Call
  returned : List Return

def State.init : State := ⟨.empty, 0, false, false, false, fun _ => none, []⟩

inductive Event where
  | start (call : Nat)
  | key (call : Nat) (answer : Except JwksError CachedKey)
  | lookup (call now : Nat)
  | introspect (call : Nat) (answer : Except IntrospectError Bool)
  | store (call now : Nat)
  | finish (call : Nat)
  | abandon (call : Nat)
  | elsewhere (now : Nat) (use : CacheCall Digest)

def unavailable : Except JwksError CachedKey → Bool
  | .error (.unavailable _) => true
  | _ => false

def answers (active : Bool) : Except IntrospectError Bool → Bool
  | .ok answer => answer = active
  | .error _ => false

def failed : Except IntrospectError Bool → Bool
  | .ok _ => false
  | .error _ => true

def rejected : Except AuthError Identity → Bool
  | .error .rejected => true
  | _ => false

def State.set (s : State) (i : Nat) (call : Option Call) : State := { s with calls := Function.update s.calls i call }

section Steps
variable {Key : Type} (auth : JwtAuth) (library : Library Key) (bearer : String) (cache : IntrospectionCache)

def use (s : IntrospectionEntries Digest) (now : Nat) : CacheCall Digest → IntrospectionEntries Digest
  | .get digest => (s.get now digest).2
  | .insert digest active => s.insert cache now digest active
  | .sweep => (s.sweep now).2

def concerns : CacheCall Digest → Bool
  | .get other => other = digest library bearer
  | .insert other _ => other = digest library bearer
  | .sweep => false

def step (s : State) : Event → Option State
  | .start i =>
    match s.calls i with
    | none => some (s.set i (some ⟨auth.validate library bearer, s.refusal, false, false⟩))
    | some _ => none
  | .key i answer =>
    match s.calls i with
    | some ⟨.ask (.keyFor _) next, late, refused, outage⟩ =>
      some (s.set i (some ⟨next answer, late, refused, outage || unavailable answer⟩))
    | _ => none
  | .lookup i now =>
    match s.calls i with
    | some ⟨.ask (.cacheGet digest) next, late, refused, outage⟩ =>
      if s.clock ≤ now then
        let found := s.cache.get now digest
        some { s.set i (some ⟨next found.1, late, refused || found.1 = some false, outage⟩) with
          cache := found.2
          clock := now }
      else none
    | _ => none
  -- the law of the service: once inactive, never again active
  | .introspect i answer =>
    match s.calls i with
    | some ⟨.ask (.isActive _) next, late, refused, outage⟩ =>
      if s.revoked && answers true answer then none
      else some { s.set i (some ⟨next answer, late, refused || answers false answer, outage || failed answer⟩) with
        revoked := s.revoked || answers false answer }
    | _ => none
  | .store i now =>
    match s.calls i with
    | some ⟨.ask (.cacheInsert digest active) next, late, refused, outage⟩ =>
      if s.clock ≤ now then
        some { s.set i (some ⟨next (), late, refused, outage⟩) with
          cache := s.cache.insert cache now digest active
          clock := now
          inactiveStored := s.inactiveStored || !active }
      else none
    | _ => none
  | .finish i =>
    match s.calls i with
    | some ⟨.done result, late, refused, outage⟩ =>
      some { s.set i none with
        returned := ⟨late, outage, result⟩ :: s.returned
        refusal := s.refusal || (refused && rejected result) }
    | _ => none
  -- a future can be dropped where it waits
  | .abandon i =>
    match s.calls i with
    | some ⟨.ask (.keyFor _) _, _, _, _⟩ => some (s.set i none)
    | some ⟨.ask (.isActive _) _, _, _, _⟩ => some (s.set i none)
    | _ => none
  | .elsewhere now u =>
    if s.clock ≤ now ∧ concerns library bearer u = false then some { s with cache := use cache s.cache now u, clock := now }
    else none

def machine : Machine State Event := ⟨step auth library bearer cache⟩

end Steps

section Stages
variable {Key : Type} (auth : JwtAuth) (library : Library Key) (bearer : String)

def verdict (claims : Claims) (active : Bool) : Authenticating Identity :=
  .done (if active then auth.identity claims else .error .rejected)

def Turned (outage : Bool) (result : Except AuthError Identity) : Prop :=
  result = .error .rejected ∨ outage ∧ ∃ reason, result = .error (.serviceUnavailable reason)

inductive AfterKey (outage : Bool) : Authenticating Identity → Prop
  | turned {result} (h : Turned outage result) : AfterKey outage (.done result)
  | unchecked (claims) (h : auth.introspector = false) : AfterKey outage (.done (auth.identity claims))
  | lookup (claims) (h : auth.introspector = true) : AfterKey outage (active library bearer (verdict auth claims))

/-- Where a call can be. The answers that a call holds are true of the service and
of the cache: those of a late call are never active. -/
inductive Stage (revoked inactiveStored : Bool) : Call → Prop
  | key {kid next} {late outage : Bool} (h : ∀ answer, AfterKey auth library bearer (outage || unavailable answer) (next answer)) :
      Stage revoked inactiveStored ⟨.ask (.keyFor kid) next, late, false, outage⟩
  | afterKey {rest} {late outage : Bool} (h : AfterKey auth library bearer outage rest) :
      Stage revoked inactiveStored ⟨rest, late, false, outage⟩
  | waiting {next} {late outage : Bool} (claims) (hi : auth.introspector = true)
      (herror : ∀ error, next (.error error) = .done (.error (.serviceUnavailable error.message)))
      (hok : ∀ active, next (.ok active) = .ask (.cacheInsert (digest library bearer) active) fun _ => verdict auth claims active) :
      Stage revoked inactiveStored ⟨.ask (.isActive bearer) next, late, false, outage⟩
  | storing {late outage : Bool} (claims active) (hi : auth.introspector = true) (hr : active = false → revoked)
      (hl : late → active = false) :
      Stage revoked inactiveStored
        ⟨.ask (.cacheInsert (digest library bearer) active) fun _ => verdict auth claims active, late, !active, outage⟩
  | decided {late outage : Bool} (claims active) (hi : auth.introspector = true) (hr : active = false → inactiveStored)
      (hl : late → active = false) :
      Stage revoked inactiveStored ⟨verdict auth claims active, late, !active, outage⟩

variable {auth library bearer}

private theorem ofJwks_turned {error : JwksError} {outage : Bool} :
    Turned (outage || unavailable (.error error)) (.error (ofJwks error)) := by
  cases error with
  | notFound => exact .inl rfl
  | unavailable reason => exact .inr ⟨by simp [unavailable], reason, rfl⟩

private theorem verify_error {cached : CachedKey} {error : AuthError} (h : auth.verify library bearer cached = .error error) :
    error = .rejected := by
  rw [verify] at h
  split at h
  · cases h
    rfl
  · split at h
    · cases h
      rfl
    · split at h
      · cases h
        rfl
      · cases h

private theorem conclude_afterKey (claims : Claims) (outage : Bool) :
    AfterKey auth library bearer outage (auth.conclude library bearer claims) := by
  rw [conclude]
  cases h : auth.introspector with
  | true => exact .lookup claims h
  | false => exact .unchecked claims h

/-- A call starts by asking for a key, or fails at once. -/
theorem stage_validate (late revoked inactiveStored : Bool) :
    Stage auth library bearer revoked inactiveStored ⟨auth.validate library bearer, late, false, false⟩ := by
  rw [validate]
  split
  · exact .afterKey (.turned (.inl rfl))
  · split
    · exact .afterKey (.turned (.inl rfl))
    · apply Stage.key
      intro answer
      cases answer with
      | error error => exact .turned ofJwks_turned
      | ok cached =>
        simp only
        split
        · rename_i error h
          rw [verify_error h]
          exact .turned (.inl rfl)
        · exact conclude_afterKey _ _

private theorem Stage.mono {revoked inactiveStored revoked' inactiveStored' : Bool} {call : Call} (hr : revoked → revoked')
    (hs : inactiveStored → inactiveStored') (h : Stage auth library bearer revoked inactiveStored call) :
    Stage auth library bearer revoked' inactiveStored' call := by
  cases h with
  | key h => exact .key h
  | afterKey h => exact .afterKey h
  | waiting claims hi herror hok => exact .waiting claims hi herror hok
  | storing claims active hi ha hl => exact .storing claims active hi (fun h => hr (ha h)) hl
  | decided claims active hi ha hl => exact .decided claims active hi (fun h => hs (ha h)) hl

/-- A call that is about to return was turned away or not checked, or knows whether the
token is active. -/
theorem Stage.of_done {revoked inactiveStored late refused outage : Bool} {result : Except AuthError Identity}
    (h : Stage auth library bearer revoked inactiveStored ⟨.done result, late, refused, outage⟩) :
    refused = false ∧ (Turned outage result ∨ auth.introspector = false) ∨
      auth.introspector = true ∧ (refused → inactiveStored) ∧ (late → result = .error .rejected) := by
  generalize hrest : (Dialogue.done result : Authenticating Identity) = rest at h
  cases h with
  | key => cases hrest
  | waiting => cases hrest
  | storing => cases hrest
  | afterKey hafter =>
    refine .inl ⟨rfl, ?_⟩
    cases hafter with
    | turned hturned =>
      cases hrest
      exact .inl hturned
    | unchecked claims hi => exact .inr hi
    | lookup => cases hrest
  | decided claims active hi hr hlate =>
    refine .inr ⟨hi, fun hrefused => hr (by simpa using hrefused), fun hl => ?_⟩
    rw [hlate hl] at hrest
    cases hrest
    rfl

/-- A call is at one of its stages, and late only after an inactive answer was
stored. -/
structure Placed (auth : JwtAuth) (library : Library Key) (bearer : String) (revoked inactiveStored : Bool) (call : Call) :
    Prop where
  stage : Stage auth library bearer revoked inactiveStored call
  late : call.late → inactiveStored ∧ auth.introspector

private theorem Placed.mono {revoked inactiveStored revoked' inactiveStored' : Bool} {call : Call} (hr : revoked → revoked')
    (hs : inactiveStored → inactiveStored') (h : Placed auth library bearer revoked inactiveStored call) :
    Placed auth library bearer revoked' inactiveStored' call :=
  ⟨h.stage.mono hr hs, fun hl => ⟨hs (h.late hl).1, (h.late hl).2⟩⟩

end Stages

section Invariant
variable {Key : Type} (auth : JwtAuth) (library : Library Key) (bearer : String) (cache : IntrospectionCache)

/-- Once an inactive answer is stored the token is revoked and no active answer is
stored any more, so every late call is turned away. -/
structure Sound (s : State) : Prop where
  revoked : s.inactiveStored → s.revoked
  active_not_stored : s.inactiveStored → s.cache.stored (digest library bearer) ≠ some true
  inactive_stored : s.cache.stored (digest library bearer) = some false → s.inactiveStored
  refusal : s.refusal → s.inactiveStored ∧ auth.introspector
  calls : ∀ i call, s.calls i = some call → Placed auth library bearer s.revoked s.inactiveStored call
  returned : ∀ r ∈ s.returned, r.late → Turned r.outage r.result

def stores (s : State) : Event → Option Bool
  | .store i _ =>
    match s.calls i with
    | some ⟨.ask (.cacheInsert _ active) _, _, _, _⟩ => some active
    | _ => none
  | _ => none

/-- No active answer is stored after an inactive one. -/
def InOrder (s : State) (event : Event) : Prop := s.inactiveStored → stores s event ≠ some true

instance (s : State) (event : Event) : Decidable (InOrder s event) := inferInstanceAs (Decidable (_ → _))

variable {auth library bearer cache} {s t : State} {i now : Nat}

private theorem Sound.placed_set (h : Sound auth library bearer s) {new : Option Call} (hcalls : t.calls = Function.update s.calls i new)
    (hr : s.revoked → t.revoked) (hs : s.inactiveStored → t.inactiveStored)
    (hnew : ∀ call, new = some call → Placed auth library bearer t.revoked t.inactiveStored call) :
    ∀ j call, t.calls j = some call → Placed auth library bearer t.revoked t.inactiveStored call := by
  intro j call hj
  rw [hcalls, Function.update_apply] at hj
  split at hj
  · exact hnew call hj
  · exact (h.calls j call hj).mono hr hs

private theorem sound_start (h : Sound auth library bearer s) (ht : step auth library bearer cache s (.start i) = some t) :
    Sound auth library bearer t := by
  rw [step] at ht
  split at ht
  · cases ht
    refine { h with calls := h.placed_set rfl id id ?_ }
    rintro call ⟨⟩
    exact ⟨stage_validate _ _ _, h.refusal⟩
  · cases ht

private theorem sound_key {answer : Except JwksError CachedKey} (h : Sound auth library bearer s)
    (ht : step auth library bearer cache s (.key i answer) = some t) : Sound auth library bearer t := by
  rw [step] at ht
  split at ht
  · rename_i kid next late refused outage hc
    cases ht
    refine { h with calls := h.placed_set rfl id id ?_ }
    rintro call ⟨⟩
    have hp := h.calls i _ hc
    refine ⟨?_, hp.late⟩
    cases hp.stage with
    | key hnext => exact .afterKey (hnext answer)
    | afterKey hrest => cases hrest
  · cases ht

private theorem sound_lookup (h : Sound auth library bearer s) (ht : step auth library bearer cache s (.lookup i now) = some t) :
    Sound auth library bearer t := by
  rw [step] at ht
  split at ht
  · rename_i digest next late refused outage hc
    split at ht
    · cases ht
      have hp := h.calls i _ hc
      refine { h with
        active_not_stored := fun hs he => h.active_not_stored hs (IntrospectionEntries.stored_get he)
        inactive_stored := fun he => h.inactive_stored (IntrospectionEntries.stored_get he)
        calls := h.placed_set rfl id id ?_ }
      rintro call ⟨⟩
      refine ⟨?_, hp.late⟩
      cases hp.stage with
      | afterKey hrest =>
        cases hrest with
        | lookup claims hi =>
          cases hfound : (s.cache.get now (JwtAuth.digest library bearer)).1 with
          | none => exact .waiting claims hi (fun _ => rfl) fun _ => rfl
          | some active =>
            have hstored := IntrospectionEntries.get_answer hfound
            have hd : Stage auth library bearer s.revoked s.inactiveStored ⟨verdict auth claims active, late, !active, outage⟩ := by
              apply Stage.decided claims active hi
              · rintro rfl
                exact h.inactive_stored hstored
              · intro hl
                cases active with
                | false => rfl
                | true => exact absurd hstored (h.active_not_stored (hp.late hl).1)
            cases active with
            | true => exact hd
            | false => exact hd
    · cases ht
  · cases ht

private theorem sound_introspect {answer : Except IntrospectError Bool} (h : Sound auth library bearer s)
    (ht : step auth library bearer cache s (.introspect i answer) = some t) : Sound auth library bearer t := by
  rw [step] at ht
  split at ht
  · rename_i token next late refused outage hc
    split at ht
    · cases ht
    · rename_i hlaw
      cases ht
      have hp := h.calls i _ hc
      have hr : s.revoked → (s.revoked || answers false answer) := fun hr => by simp [hr]
      refine { h with
        revoked := fun hs => hr (h.revoked hs)
        calls := h.placed_set rfl hr id ?_ }
      rintro call ⟨⟩
      refine ⟨?_, hp.late⟩
      cases hp.stage with
      | afterKey hrest => cases hrest
      | waiting claims hi herror hok =>
        cases answer with
        | error error =>
          rw [herror]
          exact .afterKey (.turned (.inr ⟨by simp [failed], _, rfl⟩))
        | ok active =>
          rw [hok]
          have hd : Stage auth library bearer (s.revoked || answers false (.ok active)) s.inactiveStored
              ⟨.ask (.cacheInsert (digest library bearer) active) fun _ => verdict auth claims active, late, !active,
                outage || failed (.ok active)⟩ := by
            apply Stage.storing claims active hi
            · rintro rfl
              simp [answers]
            · intro hl
              cases active with
              | false => rfl
              | true => exact absurd (by simp [h.revoked (hp.late hl).1, answers]) hlaw
          cases active with
          | true => exact hd
          | false => exact hd
  · cases ht

private theorem sound_store (h : Sound auth library bearer s) (ho : InOrder s (.store i now))
    (ht : step auth library bearer cache s (.store i now) = some t) : Sound auth library bearer t := by
  rw [step] at ht
  split at ht
  · rename_i digest active next late refused outage hc
    split at ht
    · cases ht
      have hp := h.calls i _ hc
      have hactive : s.inactiveStored → active ≠ true := by
        intro hs ha
        apply ho hs
        rw [stores, hc, ha]
      have hmono : s.inactiveStored → (s.inactiveStored || !active) := fun hs => by simp [hs]
      cases hp.stage with
      | afterKey hrest => cases hrest
      | storing claims _ hi hr hl =>
        have hrevoked : (s.inactiveStored || !active) → s.revoked := by
          intro hs
          cases active with
          | true => exact h.revoked (by simpa using hs)
          | false => exact hr rfl
        refine { h with revoked := hrevoked, active_not_stored := ?_, inactive_stored := ?_, refusal := ?_, calls := ?_ }
        · intro hs he
          rcases IntrospectionEntries.stored_insert he with ⟨-, rfl⟩ | ⟨hne, -⟩
          · exact hactive (by simpa using hs) rfl
          · exact hne rfl
        · intro he
          rcases IntrospectionEntries.stored_insert he with ⟨-, rfl⟩ | ⟨hne, -⟩
          · simp
          · exact absurd rfl hne
        · exact fun hf => ⟨hmono (h.refusal hf).1, (h.refusal hf).2⟩
        · refine h.placed_set rfl id hmono ?_
          rintro call ⟨⟩
          refine ⟨.decided claims active hi ?_ hl, fun hl => ⟨hmono (hp.late hl).1, (hp.late hl).2⟩⟩
          rintro rfl
          simp
    · cases ht
  · cases ht

private theorem sound_finish (h : Sound auth library bearer s) (ht : step auth library bearer cache s (.finish i) = some t) :
    Sound auth library bearer t := by
  rw [step] at ht
  split at ht
  · rename_i result late refused outage hc
    cases ht
    have hp := h.calls i _ hc
    refine { h with
      refusal := ?_
      calls := h.placed_set rfl id id nofun
      returned := List.forall_mem_cons.mpr ⟨?_, h.returned⟩ }
    · intro hf
      rw [Bool.or_eq_true, Bool.and_eq_true] at hf
      rcases hf with hf | ⟨hrefused, -⟩
      · exact h.refusal hf
      · rcases hp.stage.of_done with ⟨hnot, -⟩ | ⟨hi, hr, -⟩
        · rw [hnot] at hrefused
          cases hrefused
        · exact ⟨hr hrefused, hi⟩
    · intro hl
      rcases hp.stage.of_done with ⟨-, hturned | hi⟩ | ⟨-, -, hrejected⟩
      · exact hturned
      · exact absurd (hp.late hl).2 (by simp [hi])
      · exact .inl (hrejected hl)
  · cases ht

private theorem sound_abandon (h : Sound auth library bearer s) (ht : step auth library bearer cache s (.abandon i) = some t) :
    Sound auth library bearer t := by
  rw [step] at ht
  split at ht
  · cases ht
    exact { h with calls := h.placed_set rfl id id nofun }
  · cases ht
    exact { h with calls := h.placed_set rfl id id nofun }
  · cases ht

/-- A use for another token leaves no new answer for this one. -/
theorem stored_use {u : CacheCall Digest} {active : Bool} (hu : concerns library bearer u = false)
    (h : (use cache s.cache now u).stored (digest library bearer) = some active) :
    s.cache.stored (digest library bearer) = some active := by
  cases u with
  | get other => exact IntrospectionEntries.stored_get h
  | insert other answer =>
    rcases IntrospectionEntries.stored_insert h with ⟨rfl, -⟩ | ⟨-, h⟩
    · simp [concerns] at hu
    · exact h
  | sweep => exact IntrospectionEntries.stored_sweep h

private theorem sound_elsewhere {u : CacheCall Digest} (h : Sound auth library bearer s)
    (ht : step auth library bearer cache s (.elsewhere now u) = some t) : Sound auth library bearer t := by
  rw [step] at ht
  split at ht
  · rename_i hu
    cases ht
    exact { h with
      active_not_stored := fun hs he => h.active_not_stored hs (stored_use hu.2 he)
      inactive_stored := fun he => h.inactive_stored (stored_use hu.2 he) }
  · cases ht

private theorem sound_step {event : Event} (h : Sound auth library bearer s) (ho : InOrder s event)
    (ht : step auth library bearer cache s event = some t) : Sound auth library bearer t := by
  cases event with
  | start i => exact sound_start h ht
  | key i answer => exact sound_key h ht
  | lookup i now => exact sound_lookup h ht
  | introspect i answer => exact sound_introspect h ht
  | store i now => exact sound_store h ho ht
  | finish i => exact sound_finish h ht
  | abandon i => exact sound_abandon h ht
  | elsewhere now u => exact sound_elsewhere h ht

private theorem sound_init : Sound auth library bearer .init where
  revoked := by rintro ⟨⟩
  active_not_stored := by rintro ⟨⟩
  inactive_stored := by rintro ⟨⟩
  refusal := by rintro ⟨⟩
  calls := by rintro j call ⟨⟩
  returned := by rintro r ⟨⟩

end Invariant

/-- Where no active answer is stored after an inactive one, no call that starts
after a refusal is let in: it is rejected, or told of an outage that befell it. -/
theorem late_calls_turned_away {Key : Type} (auth : JwtAuth) (library : Library Key) (bearer : String) (cache : IntrospectionCache)
    {events : List Event} {t : State} (hr : (machine auth library bearer cache).run .init events = some t)
    (ho : (machine auth library bearer cache).Along InOrder .init events) :
    ∀ r ∈ t.returned, r.late → r.result = .error .rejected ∨ r.outage ∧ ∃ reason, r.result = .error (.serviceUnavailable reason) :=
  (ho.invariant (fun _ _ _ h ho ht => sound_step h ho ht) hr sound_init).returned

def readerLibrary : Library Unit where
  decodeHeader _ := some ⟨some "key"⟩
  decodingKey _ := some ()
  decode _ _ _ := some (sampleClaims ["redis:read"] [])
  parseJson _ := none
  sha256 _ := Vector.replicate 32 0

def introspecting : JwtAuth := ⟨sampleConfig, fun _ => some ∅, true⟩

def arrival (i : Nat) : List Event := [.start i, .key i (.ok ⟨.rs256, []⟩), .lookup i 0]

def revocationSeen : List Event := arrival 0 ++ [.introspect 0 (.ok false), .store 0 0, .finish 0] ++ arrival 1 ++ [.finish 1]

theorem late_calls_turned_away_seen :
    ((machine introspecting readerLibrary "token" (.new 30)).run .init revocationSeen).isSome ∧
      ∀ t, (machine introspecting readerLibrary "token" (.new 30)).run .init revocationSeen = some t →
        ∀ r ∈ t.returned, r.late →
          r.result = .error .rejected ∨ r.outage ∧ ∃ reason, r.result = .error (.serviceUnavailable reason) :=
  ⟨by decide, fun _ ht => late_calls_turned_away introspecting readerLibrary "token" (.new 30) ht (by decide)⟩

/-- The first call is answered active and waits; the second is answered inactive,
stores that and is rejected; the first stores its older answer; the third asks. -/
def delayedAnswer : List Event :=
  arrival 0 ++ [.introspect 0 (.ok true)] ++ arrival 1 ++ [.introspect 1 (.ok false), .store 1 0, .finish 1, .store 0 0] ++
    arrival 2 ++ [.finish 2]

/-- The third call starts after the rejection of the second and is let in. -/
theorem delayed_answer_readmits :
    ((machine introspecting readerLibrary "token" (.new 30)).run .init delayedAnswer).map (fun t =>
      t.returned.map fun r => (r.late, r.result.isOk, rejected r.result)) =
        some [(true, true, false), (false, false, true)] := by
  decide

end Srh.Adapters.Revocation
