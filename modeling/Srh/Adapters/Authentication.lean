import Srh.Adapters.AuthChain
import Srh.Adapters.CacheRecency
import Srh.Adapters.JwksProvenance
import Srh.Adapters.Revocation

/-! The authentication of a server: any number of calls of its authenticator, for any
credentials, over one JWKS source and one introspection cache. A journal holds what was
learned from the outside, what the cache was given and gave, and what was answered. -/
namespace Srh.Adapters.Authentication
open Srh.Lib Srh.Domain Jwt JwtAuth

section Setup
variable {Key : Type} (library : Library Key) (config : Config)

def authenticator : Authenticator :=
  match config.auth.jwt with
  | some jwt => jwtChain library (.new jwt config.pools jwt.introspection.enabled) config.auth.staticTokens
  | none => AuthChain.authenticate [(StaticAuth.new config.auth.staticTokens).authenticate library.sha256]

def introspectionCache : IntrospectionCache := .new ((config.auth.jwt.map (·.introspection.cacheSecs)).getD 0)

def refreshAfter : Nat := Duration.fromSecs ((config.auth.jwt.map JwtConfig.jwksRefreshSecs).getD 0)

end Setup

/-- An entry of the journal. The calls are numbered as they start, and what belongs to one
of them has its ticket. -/
inductive Entry where
  | discovered (uri : String)
  | fetched (uri : String) (jwks : List HttpJwks.Jwk)
  | introspected (ticket : Nat) (bearer : String) (active : Bool)
  | stored (ticket now : Nat) (digest : Digest) (active : Bool)
  | found (ticket now : Nat) (digest : Digest) (active : Bool)
  | answered (call ticket : Nat) (bearer : String) (result : Except AuthError (Option Identity))

structure Call where
  ticket : Nat
  bearer : String
  rest : Authenticating (Option Identity)

structure State where
  jwks : HttpJwks.State
  cache : IntrospectionEntries Digest
  calls : Nat → Option Call
  started : Nat
  journal : List Entry

def State.init : State := ⟨.init, .empty, fun _ => none, 0, []⟩

/-- A call goes on at a question of its own; discovery, fetches and introspection are
answered by the outside, and the clock is read where the cache is used. -/
inductive Event where
  | start (call : Nat) (bearer : String)
  | ask (call : Nat)
  | go (call : Nat)
  | discovered (call : Nat) (answer : Except JwksError String)
  | fetched (call : Nat) (answer : Except JwksError (List HttpJwks.Jwk))
  | tick (duration : Nat)
  | lookup (call now : Nat)
  | introspect (call : Nat) (answer : Except IntrospectError Bool)
  | store (call now : Nat)
  | finish (call : Nat)
  | abandon (call : Nat)
  | sweep (now : Nat)

namespace State

def set (s : State) (i : Nat) (call : Option Call) : State := { s with calls := Function.update s.calls i call }

def write (s : State) (entries : List Entry) : State := { s with journal := s.journal ++ entries }

/-- Takes over a step that the JWKS source made for a call. Once key_for has returned,
the call goes on with its result. -/
def settle (s : State) (i : Nat) (jwks : HttpJwks.State) : State :=
  match jwks.calls i, jwks.returned, s.calls i with
  | none, r :: _, some ⟨ticket, bearer, .ask (.keyFor _) next⟩ =>
    { s.set i (some ⟨ticket, bearer, next r.result⟩) with jwks := jwks }
  | _, _, _ => { s with jwks := jwks }

end State

def discoveries : Except JwksError String → List Entry
  | .ok uri => [.discovered uri]
  | .error _ => []

def fetches (s : HttpJwks.State) (i : Nat) : Except JwksError (List HttpJwks.Jwk) → List Entry
  | .ok jwks =>
    match s.calls i with
    | some ⟨_, .fetching _ _ uri⟩ => [.fetched uri jwks]
    | _ => []
  | .error _ => []

def findings (ticket now : Nat) (digest : Digest) : Option Bool → List Entry
  | some active => [.found ticket now digest active]
  | none => []

def introspections (ticket : Nat) (bearer : String) : Except IntrospectError Bool → List Entry
  | .ok active => [.introspected ticket bearer active]
  | .error _ => []

section Machine
variable {Key : Type} (library : Library Key) (config : Config)

def step (s : State) : Event → Option State
  | .start i bearer =>
    if (s.calls i).isNone then
      some { s.set i (some ⟨s.started, bearer, authenticator library config bearer⟩) with started := s.started + 1 }
    else none
  | .ask i =>
    match s.calls i with
    | some ⟨_, _, .ask (.keyFor kid) _⟩ =>
      (HttpJwks.step (refreshAfter config) s.jwks (.start i kid)).map fun jwks => { s with jwks := jwks }
    | _ => none
  | .go i => (HttpJwks.step (refreshAfter config) s.jwks (.go i)).map (s.settle i)
  | .discovered i answer =>
    (HttpJwks.step (refreshAfter config) s.jwks (.discovered i answer)).map ((s.write (discoveries answer)).settle i)
  | .fetched i answer =>
    (HttpJwks.step (refreshAfter config) s.jwks (.fetched i answer)).map ((s.write (fetches s.jwks i answer)).settle i)
  | .tick duration => (HttpJwks.step (refreshAfter config) s.jwks (.tick duration)).map fun jwks => { s with jwks := jwks }
  | .lookup i now =>
    match s.calls i with
    | some ⟨ticket, bearer, .ask (.cacheGet digest) next⟩ =>
      let found := s.cache.get now digest
      some { (s.write (findings ticket now digest found.1)).set i (some ⟨ticket, bearer, next found.1⟩) with cache := found.2 }
    | _ => none
  | .introspect i answer =>
    match s.calls i with
    | some ⟨ticket, bearer, .ask (.isActive token) next⟩ =>
      some ((s.write (introspections ticket token answer)).set i (some ⟨ticket, bearer, next answer⟩))
    | _ => none
  | .store i now =>
    match s.calls i with
    | some ⟨ticket, bearer, .ask (.cacheInsert digest active) next⟩ =>
      some { (s.write [.stored ticket now digest active]).set i (some ⟨ticket, bearer, next ()⟩) with
        cache := s.cache.insert (introspectionCache config) now digest active }
    | _ => none
  | .finish i =>
    match s.calls i with
    | some ⟨ticket, bearer, .done result⟩ => some ((s.write [.answered i ticket bearer result]).set i none)
    | _ => none
  -- a dropped future takes its call of key_for along
  | .abandon i =>
    if (s.calls i).isSome then
      some { s.set i none with jwks := (HttpJwks.step (refreshAfter config) s.jwks (.cancel i)).getD s.jwks }
    else none
  | .sweep now => some { s with cache := (s.cache.sweep now).2 }

def machine : Machine State Event := ⟨step library config⟩

end Machine

section Frame
variable {Key : Type} {library : Library Key} {config : Config} {s t : State}

@[simp] theorem settle_journal (s : State) (i : Nat) (jwks : HttpJwks.State) : (s.settle i jwks).journal = s.journal := by
  rw [State.settle]
  split <;> rfl

def Call.key (call : Call) : Nat × String := (call.ticket, call.bearer)

private theorem settle_keys (s : State) (i j : Nat) (jwks : HttpJwks.State) :
    ((s.settle i jwks).calls j).map Call.key = (s.calls j).map Call.key := by
  rw [State.settle]
  split
  · rename_i hc
    simp only [State.set, Function.update_apply]
    split
    · rename_i hj
      rw [hj, hc]
      rfl
    · rfl
  · rfl

/-- What a step may add to the journal: what the outside says, or an entry of the
authenticator itself. -/
inductive Told (s : State) : Event → Entry → Prop where
  | discovered (i : Nat) (uri : String) : Told s (.discovered i (.ok uri)) (.discovered uri)
  | fetched {i now : Nat} {kid uri : String} {forced : Bool} (jwks : List HttpJwks.Jwk)
      (h : s.jwks.calls i = some ⟨kid, .fetching forced now uri⟩) : Told s (.fetched i (.ok jwks)) (.fetched uri jwks)
  | introspected {i ticket : Nat} {bearer token : String} {next : Except IntrospectError Bool → Authenticating (Option Identity)}
      (active : Bool) (h : s.calls i = some ⟨ticket, bearer, .ask (.isActive token) next⟩) :
      Told s (.introspect i (.ok active)) (.introspected ticket token active)
  | stored (e : Event) (ticket now : Nat) (digest : Digest) (active : Bool) : Told s e (.stored ticket now digest active)
  | found (e : Event) (ticket now : Nat) (digest : Digest) (active : Bool) : Told s e (.found ticket now digest active)
  | answered {i ticket : Nat} {bearer : String} {result : Except AuthError (Option Identity)}
      (h : s.calls i = some ⟨ticket, bearer, .done result⟩) : Told s (.finish i) (.answered i ticket bearer result)

/-- Everything that a step writes. -/
theorem step_writes {e : Event} (h : step library config s e = some t) :
    ∃ more, t.journal = s.journal ++ more ∧ ∀ entry ∈ more, Told s e entry := by
  have hquiet : t.journal = s.journal → ∃ more, t.journal = s.journal ++ more ∧ ∀ entry ∈ more, Told s e entry :=
    fun hj => ⟨[], by rw [hj, List.append_nil], by simp⟩
  cases e with
  | start i bearer | abandon i =>
    rw [step] at h
    split at h
    · cases h
      exact hquiet rfl
    · cases h
  | ask i =>
    rw [step] at h
    split at h
    · obtain ⟨jwks, -, rfl⟩ := Option.map_eq_some_iff.mp h
      exact hquiet rfl
    · cases h
  | go i =>
    obtain ⟨jwks, -, rfl⟩ := Option.map_eq_some_iff.mp h
    exact hquiet (settle_journal _ _ _)
  | discovered i answer =>
    obtain ⟨jwks, -, rfl⟩ := Option.map_eq_some_iff.mp h
    refine ⟨_, settle_journal _ _ _, ?_⟩
    intro entry hm
    cases answer with
    | error error => cases hm
    | ok uri =>
      cases List.mem_singleton.mp hm
      exact .discovered i uri
  | fetched i answer =>
    obtain ⟨jwks, -, rfl⟩ := Option.map_eq_some_iff.mp h
    refine ⟨_, settle_journal _ _ _, ?_⟩
    intro entry hm
    cases answer with
    | error error => cases hm
    | ok jwks =>
      rw [fetches] at hm
      split at hm
      · rename_i hcall
        cases List.mem_singleton.mp hm
        exact .fetched jwks hcall
      · cases hm
  | tick duration | sweep now =>
    cases h
    exact hquiet rfl
  | lookup i now =>
    rw [step] at h
    split at h
    · rename_i ticket bearer digest next hcall
      cases h
      refine ⟨_, rfl, ?_⟩
      intro entry hm
      cases hfound : (s.cache.get now digest).1 with
      | none =>
        rw [hfound] at hm
        cases hm
      | some active =>
        rw [hfound] at hm
        cases List.mem_singleton.mp hm
        exact .found _ _ _ _ _
    · cases h
  | introspect i answer =>
    rw [step] at h
    split at h
    · rename_i hcall
      cases h
      refine ⟨_, rfl, ?_⟩
      intro entry hm
      cases answer with
      | error error => cases hm
      | ok active =>
        cases List.mem_singleton.mp hm
        exact .introspected active hcall
    · cases h
  | store i now =>
    rw [step] at h
    split at h
    · cases h
      refine ⟨_, rfl, ?_⟩
      intro entry hm
      cases List.mem_singleton.mp hm
      exact .stored _ _ _ _ _
    · cases h
  | finish i =>
    rw [step] at h
    split at h
    · rename_i hcall
      cases h
      refine ⟨_, rfl, ?_⟩
      intro entry hm
      cases List.mem_singleton.mp hm
      exact .answered hcall
    · cases h

/-- Nothing is ever taken back from the journal. -/
theorem journal_step {e : Event} (h : step library config s e = some t) : s.journal <+: t.journal := by
  obtain ⟨more, hj, -⟩ := step_writes h
  rw [hj]
  exact List.prefix_append _ _

theorem told_step {e : Event} (h : step library config s e = some t) {entry : Entry} (hm : entry ∈ t.journal) :
    entry ∈ s.journal ∨ Told s e entry := by
  obtain ⟨more, hj, htold⟩ := step_writes h
  rw [hj] at hm
  exact (List.mem_append.mp hm).imp_right (htold entry)

def Event.inner : Event → Bool
  | start _ _ => false
  | finish _ => false
  | abandon _ => false
  | _ => true

private theorem update_keys {i ticket : Nat} {bearer : String} {rest next : Authenticating (Option Identity)}
    (hc : s.calls i = some ⟨ticket, bearer, rest⟩) (j : Nat) :
    (Function.update s.calls i (some ⟨ticket, bearer, next⟩) j).map Call.key = (s.calls j).map Call.key := by
  rw [Function.update_apply]
  split
  · rename_i hj
    rw [hj, hc]
    rfl
  · rfl

def answers (journal : List Entry) : List Nat :=
  journal.filterMap fun
    | .answered _ ticket _ _ => some ticket
    | _ => none

theorem answers_append (journal more : List Entry) : answers (journal ++ more) = answers journal ++ answers more :=
  List.filterMap_append

/-- No call has been started or ended, and each stays for its credential. -/
structure Framed (s t : State) : Prop where
  keys : ∀ i, (t.calls i).map Call.key = (s.calls i).map Call.key
  started : t.started = s.started
  answers : answers t.journal = answers s.journal

private theorem Framed.settle {new : List Entry} (hnew : Authentication.answers new = []) (i : Nat) (jwks : HttpJwks.State) :
    Framed s ((s.write new).settle i jwks) where
  keys j := settle_keys ..
  started := by
    rw [State.settle]
    split <;> rfl
  answers := by rw [settle_journal, State.write, answers_append, hnew, List.append_nil]

private theorem Framed.set {new : List Entry} (hnew : Authentication.answers new = []) {i ticket : Nat} {bearer : String}
    {rest next : Authenticating (Option Identity)} (hc : s.calls i = some ⟨ticket, bearer, rest⟩)
    (cache : IntrospectionEntries Digest) :
    Framed s { (s.write new).set i (some ⟨ticket, bearer, next⟩) with cache := cache } where
  keys := update_keys hc
  started := rfl
  answers := (answers_append ..).trans (by rw [hnew, List.append_nil])

theorem framed_step {e : Event} (he : e.inner) (h : step library config s e = some t) : Framed s t := by
  cases e with
  | start i bearer | finish i | abandon i => cases he
  | ask i =>
    rw [step] at h
    split at h
    · obtain ⟨jwks, -, rfl⟩ := Option.map_eq_some_iff.mp h
      exact ⟨fun _ => rfl, rfl, rfl⟩
    · cases h
  | go i =>
    obtain ⟨jwks, -, rfl⟩ := Option.map_eq_some_iff.mp h
    have hframed : Framed s ((s.write []).settle i jwks) := .settle rfl i jwks
    rwa [State.write, List.append_nil] at hframed
  | discovered i answer =>
    obtain ⟨jwks, -, rfl⟩ := Option.map_eq_some_iff.mp h
    exact .settle (by cases answer <;> rfl) i jwks
  | fetched i answer =>
    obtain ⟨jwks, -, rfl⟩ := Option.map_eq_some_iff.mp h
    apply Framed.settle
    cases answer with
    | error error => rfl
    | ok jwks =>
      rw [fetches]
      split <;> rfl
  | tick duration | sweep now =>
    cases h
    exact ⟨fun _ => rfl, rfl, rfl⟩
  | lookup i now =>
    rw [step] at h
    split at h
    · rename_i digest next hcall
      cases h
      exact .set (by cases (s.cache.get now digest).1 <;> rfl) hcall _
    · cases h
  | introspect i answer =>
    rw [step] at h
    split at h
    · rename_i hcall
      cases h
      exact .set (by cases answer <;> rfl) hcall _
    · cases h
  | store i now =>
    rw [step] at h
    split at h
    · rename_i hcall
      cases h
      exact .set rfl hcall _
    · cases h

theorem start_calls {i : Nat} {bearer : String} (h : step library config s (.start i bearer) = some t) :
    t.calls = Function.update s.calls i (some ⟨s.started, bearer, authenticator library config bearer⟩) ∧
      t.started = s.started + 1 ∧ t.journal = s.journal := by
  rw [step] at h
  split at h
  · cases h
    exact ⟨rfl, rfl, rfl⟩
  · cases h

theorem finish_calls {i ticket : Nat} {bearer : String} {result : Except AuthError (Option Identity)}
    (hc : s.calls i = some ⟨ticket, bearer, .done result⟩) (h : step library config s (.finish i) = some t) :
    t.calls = Function.update s.calls i none ∧ t.started = s.started ∧
      t.journal = s.journal ++ [.answered i ticket bearer result] := by
  rw [step, hc] at h
  cases h
  exact ⟨rfl, rfl, rfl⟩

theorem abandon_calls {i : Nat} (h : step library config s (.abandon i) = some t) :
    t.calls = Function.update s.calls i none ∧ t.started = s.started ∧ t.journal = s.journal := by
  rw [step] at h
  split at h
  · cases h
    exact ⟨rfl, rfl, rfl⟩
  · cases h

end Frame
end Srh.Adapters.Authentication
