import Srh.Adapters.Authentication
import Srh.Adapters.JwtClaims

/-! Why a credential is accepted. Every entry of the journal is explained by the entries
before it, in every interleaving of the calls of the authenticator. -/
namespace Srh.Adapters.Authentication
open Srh.Lib Srh.Domain Jwt JwtAuth

section Reasons
variable {Key : Type} (library : Library Key) (config : Config)

/-- The service called the token active, in the very call with this ticket; or in an earlier
one, for a token of the same digest, which stored the answer less than one lifetime of the
cache before this call found it there. -/
inductive Active (before : List Entry) (ticket : Nat) (bearer : String) : Prop where
  | told (h : .introspected ticket bearer true ∈ before)
  | cached {earlier stored now : Nat} {other : String} (hdigest : digest library other = digest library bearer)
      (horder : List.Sublist [.introspected earlier other true, .stored earlier stored (digest library bearer) true,
        .found ticket now (digest library bearer) true] before)
      (hlive : now < stored + Duration.fromSecs (introspectionCache config).ttlSecs)

/-- Why an identity is given to a credential: its digest is configured, or its claims were
verified under a key for signatures with the id that the credential names, from a set
that was fetched from an address that discovery named, and it is active. -/
inductive Trusted (before : List Entry) (ticket : Nat) (bearer : String) : Identity → Prop where
  | configured {token : StaticTokenConfig} (h : config.auth.staticTokens.get (digest library bearer) = some token) :
      Trusted before ticket bearer (StaticAuth.identity (digest library bearer) token)
  | verified {jwt : JwtConfig} {header : Header} {kid uri : String} {jwks : List HttpJwks.Jwk} {jwk : HttpJwks.Jwk}
      {algorithm : JwtAlgorithm} {claims : Claims} {identity : Identity} (hjwt : config.auth.jwt = some jwt)
      (hheader : library.decodeHeader bearer = some header) (hkid : header.kid = some kid)
      (horder : List.Sublist [.discovered uri, .fetched uri jwks] before) (hjwk : jwk ∈ jwks)
      (hverifies : jwk.Verifies kid algorithm)
      (hclaims : (JwtAuth.new jwt config.pools jwt.introspection.enabled).verify library bearer ⟨algorithm, jwk.text⟩ = .ok claims)
      (hidentity : (JwtAuth.new jwt config.pools jwt.introspection.enabled).identity claims = .ok identity)
      (hactive : jwt.introspection.enabled → Active library config before ticket bearer) : Trusted before ticket bearer identity

def Fetched (journal : List Entry) (uri : String) (jwks : List HttpJwks.Jwk) : Prop := .fetched uri jwks ∈ journal

def Seen (journal : List Entry) (ticket : Nat) (bearer : String) (active : Bool) : Prop :=
  .introspected ticket bearer active ∈ journal ∨ ∃ now, .found ticket now (digest library bearer) active ∈ journal

/-- What one call knows when it accepts a credential. -/
inductive Vouched (journal : List Entry) (ticket : Nat) (bearer : String) : Identity → Prop where
  | configured {token : StaticTokenConfig} (h : config.auth.staticTokens.get (digest library bearer) = some token) :
      Vouched journal ticket bearer (StaticAuth.identity (digest library bearer) token)
  | verified {jwt : JwtConfig} {header : Header} {kid : String} {cached : CachedKey} {claims : Claims} {identity : Identity}
      (hjwt : config.auth.jwt = some jwt) (hheader : library.decodeHeader bearer = some header) (hkid : header.kid = some kid)
      (hkey : HttpJwks.Published (Fetched journal) kid cached)
      (hclaims : (JwtAuth.new jwt config.pools jwt.introspection.enabled).verify library bearer cached = .ok claims)
      (hidentity : (JwtAuth.new jwt config.pools jwt.introspection.enabled).identity claims = .ok identity)
      (hseen : jwt.introspection.enabled → Seen library journal ticket bearer true) : Vouched journal ticket bearer identity

def Vouches (journal : List Entry) (ticket : Nat) (bearer : String) (result : Except AuthError (Option Identity)) : Prop :=
  ∀ identity, result = .ok (some identity) → Vouched library config journal ticket bearer identity

/-- What explains an entry, among the entries before it. -/
def Reason (before : List Entry) : Entry → Prop
  | .fetched uri _ => .discovered uri ∈ before
  | .stored ticket _ stored active => ∃ bearer, digest library bearer = stored ∧ .introspected ticket bearer active ∈ before
  | .found _ now found active =>
    ∃ earlier stored, .stored earlier stored found active ∈ before ∧
      now < stored + Duration.fromSecs (introspectionCache config).ttlSecs
  | .answered _ ticket bearer result => Vouches library config before ticket bearer result
  | .discovered _ => True
  | .introspected _ _ _ => True

def Explained (journal : List Entry) : Prop := ∀ before e, before ++ [e] <+: journal → Reason library config before e

variable {library config} {journal before : List Entry} {ticket : Nat} {bearer : String}

private theorem Explained.reason (h : Explained library config journal) {e : Entry} (hm : e ∈ journal) :
    ∃ before, before ++ [e] <+: journal ∧ Reason library config before e ∧ Explained library config before := by
  obtain ⟨before, after, rfl⟩ := List.append_of_mem hm
  have hbegins : before ++ [e] <+: before ++ e :: after := ⟨after, by simp⟩
  refine ⟨before, hbegins, h before e hbegins, ?_⟩
  intro earlier d hd
  exact h earlier d (hd.trans ((List.prefix_append _ _).trans hbegins))

/-- What comes before a part of the journal comes before its end. -/
private theorem sublist_concat {part : List Entry} {e : Entry} (hpart : part.Sublist before) (he : before ++ [e] <+: journal) :
    List.Sublist (part ++ [e]) journal :=
  (hpart.append_right [e]).trans he.sublist

/-- A call that knows enough has every reason, as long as the journal is explained. -/
theorem Vouched.trusted {identity : Identity} (hj : Explained library config journal)
    (h : Vouched library config journal ticket bearer identity) : Trusted library config journal ticket bearer identity := by
  cases h with
  | configured h => exact .configured h
  | @verified jwt header kid cached claims identity hjwt hheader hkid hkey hclaims hidentity hseen =>
    obtain ⟨uri, jwks, jwk, hf, hm, hc⟩ := hkey
    obtain ⟨hverifies, htext⟩ := HttpJwks.cacheableKey_verifies hc
    obtain ⟨before, hbegins, hdiscovered, -⟩ := hj.reason hf
    refine .verified hjwt hheader hkid (sublist_concat (List.singleton_sublist.mpr hdiscovered) hbegins) hm hverifies ?_
      hidentity ?_
    · rw [← htext]
      exact hclaims
    · intro he
      rcases hseen he with htold | ⟨now, hfound⟩
      · exact .told htold
      · obtain ⟨_, hfoundAt, ⟨earlier, stored, hstored, hlive⟩, hexplained⟩ := hj.reason hfound
        obtain ⟨_, hstoredAt, ⟨other, hdigest, htold⟩, -⟩ := hexplained.reason hstored
        exact .cached hdigest
          (sublist_concat (sublist_concat (List.singleton_sublist.mpr htold) hstoredAt) hfoundAt) hlive

end Reasons

section Dialogues
variable {Key : Type} (library : Library Key) (journal : List Entry) (ticket : Nat)

def May : (question : Question) → question.Answer → Prop
  | .keyFor kid, (.ok key : Except JwksError CachedKey) => HttpJwks.Published (Fetched journal) kid key
  | .cacheGet digest, (some active : Option Bool) => ∃ now, .found ticket now digest active ∈ journal
  | .isActive bearer, (.ok active : Except IntrospectError Bool) => .introspected ticket bearer active ∈ journal
  | _, _ => True

def Asks : Question → Prop
  | .cacheInsert stored active => ∃ bearer, digest library bearer = stored ∧ .introspected ticket bearer active ∈ journal
  | _ => True

variable {library journal ticket} {config : Config} {bearer : String} {ρ : Type}

private theorem active_obeys {next : Bool → Authenticating ρ} {P : Except AuthError ρ → Prop}
    (hnext : ∀ active, Seen library journal ticket bearer active → (next active).Obeys (May journal ticket) (Asks library journal ticket) P)
    (herror : ∀ error, P (.error error)) : (active library bearer next).Obeys (May journal ticket) (Asks library journal ticket) P := by
  refine ⟨trivial, ?_⟩
  intro found hfound
  cases found with
  | some active => exact hnext active (.inr hfound)
  | none =>
    refine ⟨trivial, ?_⟩
    intro answer hanswer
    cases answer with
    | error error => exact herror _
    | ok active =>
      refine ⟨⟨bearer, rfl, hanswer⟩, ?_⟩
      intro _ _
      exact hnext active (.inl hanswer)

private theorem validate_obeys {jwt : JwtConfig} (hjwt : config.auth.jwt = some jwt) :
    ((JwtAuth.new jwt config.pools jwt.introspection.enabled).validate library bearer).Obeys (May journal ticket) (Asks library journal ticket)
      fun result => ∀ identity, result = .ok identity → Vouched library config journal ticket bearer identity := by
  rw [validate]
  cases hheader : library.decodeHeader bearer with
  | none => rintro _ ⟨⟩
  | some header =>
    dsimp only
    cases hkid : header.kid with
    | none => rintro _ ⟨⟩
    | some kid =>
      refine ⟨trivial, ?_⟩
      intro answer hkey
      cases answer with
      | error error => rintro _ ⟨⟩
      | ok cached =>
        dsimp only
        cases hclaims : (JwtAuth.new jwt config.pools jwt.introspection.enabled).verify library bearer cached with
        | error error => rintro _ ⟨⟩
        | ok claims =>
          dsimp only
          rw [conclude]
          split
          · apply active_obeys
            · intro active hseen identity hidentity
              cases active with
              | false => cases hidentity
              | true => exact .verified hjwt hheader hkid hkey hclaims hidentity fun _ => hseen
            · rintro error _ ⟨⟩
          · rename_i hoff
            intro identity hidentity
            exact .verified hjwt hheader hkid hkey hclaims hidentity fun hon => absurd hon hoff

def Honest (library : Library Key) (config : Config) (journal : List Entry) (ticket : Nat) (link : Authenticator) : Prop :=
  ∀ bearer, (link bearer).Obeys (May journal ticket) (Asks library journal ticket) (Vouches library config journal ticket bearer)

private theorem jwt_honest {jwt : JwtConfig} (hjwt : config.auth.jwt = some jwt) :
    Honest library config journal ticket ((JwtAuth.new jwt config.pools jwt.introspection.enabled).authenticate library) := by
  intro bearer
  rw [authenticate]
  split
  · rintro _ ⟨⟩
  · split
    · split <;> rintro _ ⟨⟩
    · apply (validate_obeys hjwt).bind
      intro result h identity hidentity
      cases result with
      | error error => cases hidentity
      | ok accepted =>
        cases hidentity
        exact h identity rfl

private theorem static_honest : Honest library config journal ticket ((StaticAuth.new config.auth.staticTokens).authenticate library.sha256) := by
  intro bearer identity hidentity
  obtain ⟨token, htoken, rfl⟩ := Option.map_eq_some_iff.mp (Except.ok.inj hidentity)
  exact .configured htoken

private theorem chain_honest {links : List Authenticator} (h : ∀ link ∈ links, Honest library config journal ticket link) :
    Honest library config journal ticket (AuthChain.authenticate links) := by
  induction links with
  | nil => rintro bearer _ ⟨⟩
  | cons link links ih =>
    intro bearer
    apply (h link List.mem_cons_self bearer).bind
    intro result hresult
    match result with
    | .error error => rintro _ ⟨⟩
    | .ok (some identity) => exact hresult
    | .ok none => exact ih (fun other hm => h other (List.mem_cons_of_mem _ hm)) bearer

private theorem authenticator_honest : Honest library config journal ticket (authenticator library config) := by
  rw [authenticator]
  split
  · rename_i jwt hjwt
    apply chain_honest
    intro link hm
    rcases List.mem_pair.mp hm with rfl | rfl
    · exact jwt_honest hjwt
    · exact static_honest
  · apply chain_honest
    intro link hm
    rw [List.mem_singleton.mp hm]
    exact static_honest

end Dialogues

section Invariant
variable {Key : Type} (library : Library Key) (config : Config)

def Stored (journal : List Entry) (cache : IntrospectionEntries Digest) : Prop :=
  ∀ digest active expiresAt, cache.held digest = some (active, expiresAt) →
    ∃ ticket stored, .stored ticket stored digest active ∈ journal ∧
      expiresAt = stored + Duration.fromSecs (introspectionCache config).ttlSecs

def Call.Honest (journal : List Entry) (call : Call) : Prop :=
  ∀ more, journal ⊆ more →
    call.rest.Obeys (May more call.ticket) (Asks library more call.ticket) (Vouches library config more call.ticket call.bearer)

structure Sound (s : State) : Prop where
  sourced : HttpJwks.Sourced (.discovered · ∈ s.journal) (Fetched s.journal) s.jwks
  asked : ∀ i call, s.jwks.calls i = some call → ∃ ticket bearer next, s.calls i = some ⟨ticket, bearer, .ask (.keyFor call.kid) next⟩
  sized : s.cache.Sized (introspectionCache config)
  stored : Stored config s.journal s.cache
  calls : ∀ i call, s.calls i = some call → call.Honest library config s.journal
  explained : Explained library config s.journal

variable {library config} {s t : State} {i : Nat}

private theorem Call.Honest.mono {journal more : List Entry} {call : Call} (h : call.Honest library config journal)
    (hsub : journal ⊆ more) : call.Honest library config more :=
  fun further hm => h further (List.Subset.trans hsub hm)

private theorem Sound.write (h : Sound library config s) {e : Entry} (he : Reason library config s.journal e) :
    Sound library config (s.write [e]) := by
  have hsub : s.journal ⊆ s.journal ++ [e] := List.subset_append_left _ _
  exact {
    sourced := h.sourced.mono (fun _ hm => hsub hm) fun _ _ hm => hsub hm
    asked := h.asked
    sized := h.sized
    stored := fun digest active expiresAt hheld =>
      (h.stored digest active expiresAt hheld).imp fun _ => Exists.imp fun _ hs => ⟨hsub hs.1, hs.2⟩
    calls := fun i call hc => (h.calls i call hc).mono hsub
    explained := forall_steps_concat.mpr ⟨h.explained, he⟩ }

private theorem write_nil (s : State) : s.write [] = s := by
  rw [State.write, List.append_nil]

/-- A call that does not wait for a key may be put anywhere honest. -/
theorem Sound.set (h : Sound library config s) (hkey : s.jwks.calls i = none) (call : Option Call)
    (hcall : ∀ c, call = some c → c.Honest library config s.journal) : Sound library config (s.set i call) := by
  refine { h with asked := ?_, calls := ?_ }
  · intro j c hc
    have hne : j ≠ i := by
      rintro rfl
      cases hkey.symm.trans hc
    obtain ⟨ticket, bearer, next, hn⟩ := h.asked j c hc
    exact ⟨ticket, bearer, next, by simp only [State.set, Function.update_of_ne hne, hn]⟩
  · intro j c hc
    simp only [State.set, Function.update_apply] at hc
    split at hc
    · exact hcall c hc
    · exact h.calls j c hc

/-- A question for anything but a key is asked after the key, or without one. -/
theorem Sound.keyless (h : Sound library config s) {ticket : Nat} {bearer : String} {rest : Authenticating (Option Identity)}
    (hc : s.calls i = some ⟨ticket, bearer, rest⟩) (hrest : ∀ kid next, rest ≠ .ask (.keyFor kid) next) : s.jwks.calls i = none := by
  cases hk : s.jwks.calls i with
  | none => rfl
  | some call =>
    obtain ⟨_, _, next, hn⟩ := h.asked i call hk
    cases hc.symm.trans hn
    exact absurd rfl (hrest _ _)

/-- The answer to a question that the journal holds leads an honest call on. -/
theorem Call.Honest.answered {journal : List Entry} {ticket : Nat} {bearer : String} {question : Question}
    {next : question.Answer → Authenticating (Option Identity)}
    (h : Call.Honest library config journal ⟨ticket, bearer, .ask question next⟩) {answer : question.Answer}
    (hmay : ∀ more, journal ⊆ more → May more ticket question answer) :
    Call.Honest library config journal ⟨ticket, bearer, next answer⟩ :=
  fun more hsub => (h more hsub).2 answer (hmay more hsub)

private theorem Sound.source (h : Sound library config s) {jwks : HttpJwks.State}
    (hsource : HttpJwks.Sourced (.discovered · ∈ s.journal) (Fetched s.journal) jwks)
    (hcalls : ∀ i call, jwks.calls i = some call → ∃ old, s.jwks.calls i = some old ∧ old.kid = call.kid) :
    Sound library config { s with jwks := jwks } := by
  refine { h with sourced := hsource, asked := ?_ }
  intro j call hc
  obtain ⟨old, ho, hk⟩ := hcalls j call hc
  rw [← hk]
  exact h.asked j old ho

private theorem Sound.settle (h : Sound library config s) {jwks : HttpJwks.State} {old : HttpJwks.Call}
    (hsource : HttpJwks.Sourced (.discovered · ∈ s.journal) (Fetched s.journal) jwks)
    (hold : s.jwks.calls i = some old) (hadvanced : HttpJwks.Advanced s.jwks i old.kid jwks) :
    Sound library config (s.settle i jwks) := by
  obtain ⟨ticket, bearer, next, hcall⟩ := h.asked i old hold
  have hother : ∀ j call, j ≠ i → Function.update s.jwks.calls i call j = s.jwks.calls j :=
    fun j call hne => Function.update_of_ne hne _ _
  rcases hadvanced with ⟨phase, hcalls, hreturned⟩ | ⟨cache, result, hcalls, hreturned⟩
  · -- key_for goes on under its id
    have hi : jwks.calls i = some ⟨old.kid, phase⟩ := by rw [hcalls, Function.update_self]
    rw [State.settle, hi]
    apply h.source hsource
    intro j call hc
    by_cases hj : j = i
    · subst hj
      cases hi.symm.trans hc
      exact ⟨old, hold, rfl⟩
    · rw [hcalls, hother j _ hj] at hc
      exact ⟨call, hc, rfl⟩
  · -- key_for returns, and the call goes on with its key
    have hi : jwks.calls i = none := by rw [hcalls, Function.update_self]
    rw [State.settle, hi, hreturned, hcall]
    have hsound : Sound library config { s with jwks := jwks } := by
      apply h.source hsource
      intro j call hc
      by_cases hj : j = i
      · subst hj
        cases hi.symm.trans hc
      · rw [hcalls, hother j _ hj] at hc
        exact ⟨call, hc, rfl⟩
    apply hsound.set hi
    rintro _ ⟨⟩
    apply (h.calls i _ hcall).answered
    intro more hsub
    cases result with
    | error error => trivial
    | ok key =>
      have hkey : HttpJwks.Published (Fetched s.journal) old.kid key :=
        hsource.returned _ (by rw [hreturned]; exact List.mem_cons_self) key rfl
      exact hkey.mono fun _ _ hm => hsub hm

section Steps

private theorem start_sound {bearer : String} (h : Sound library config s) (ht : step library config s (.start i bearer) = some t) :
    Sound library config t := by
  rw [step] at ht
  split at ht
  · rename_i hnone
    cases ht
    have hkey : s.jwks.calls i = none := by
      cases hk : s.jwks.calls i with
      | none => rfl
      | some call =>
        obtain ⟨_, _, _, hn⟩ := h.asked i call hk
        rw [hn] at hnone
        cases hnone
    have hset : Sound library config (s.set i (some ⟨s.started, bearer, authenticator library config bearer⟩)) := by
      apply h.set hkey
      rintro _ ⟨⟩ more -
      exact authenticator_honest bearer
    exact ⟨hset.sourced, hset.asked, hset.sized, hset.stored, hset.calls, hset.explained⟩
  · cases ht

private theorem ask_sound (h : Sound library config s) (ht : step library config s (.ask i) = some t) : Sound library config t := by
  rw [step] at ht
  split at ht
  · rename_i ticket bearer kid next hcall
    obtain ⟨jwks, hstep, rfl⟩ := Option.map_eq_some_iff.mp ht
    have hsource := HttpJwks.sourced_step h.sourced (by trivial) hstep
    rw [HttpJwks.step] at hstep
    split at hstep
    · cases hstep
      refine { h with sourced := hsource, asked := ?_ }
      intro j call hc
      simp only [HttpJwks.State.move, HttpJwks.State.set, Function.update_apply] at hc
      split at hc
      · rename_i hj
        subst hj
        cases hc
        exact ⟨ticket, bearer, next, hcall⟩
      · exact h.asked j call hc
    · cases hstep
  · cases ht

private theorem go_sound (h : Sound library config s) (ht : step library config s (.go i) = some t) : Sound library config t := by
  obtain ⟨jwks, hstep, rfl⟩ := Option.map_eq_some_iff.mp ht
  have hsource := HttpJwks.sourced_step h.sourced (by trivial) hstep
  obtain ⟨call, hc, hstep⟩ := Option.bind_eq_some_iff.mp hstep
  exact h.settle hsource hc (HttpJwks.go_advanced hstep)

private theorem discovered_sound {answer : Except JwksError String} (h : Sound library config s)
    (ht : step library config s (.discovered i answer) = some t) : Sound library config t := by
  obtain ⟨jwks, hstep, rfl⟩ := Option.map_eq_some_iff.mp ht
  have hw : Sound library config (s.write (discoveries answer)) := by
    cases answer with
    | error error => exact (write_nil s).symm ▸ h
    | ok uri => exact h.write trivial
  have htold : HttpJwks.Event.Told (.discovered · ∈ (s.write (discoveries answer)).journal)
      (Fetched (s.write (discoveries answer)).journal) s.jwks (.discovered i answer) := by
    cases answer with
    | error error => trivial
    | ok uri => exact List.mem_append_right _ (List.mem_singleton_self _)
  have hsource := HttpJwks.sourced_step hw.sourced htold hstep
  obtain ⟨call, hc, hstep⟩ := Option.bind_eq_some_iff.mp hstep
  exact hw.settle hsource hc (HttpJwks.discovered_advanced hstep)

private theorem fetched_sound {answer : Except JwksError (List HttpJwks.Jwk)} (h : Sound library config s)
    (ht : step library config s (.fetched i answer) = some t) : Sound library config t := by
  obtain ⟨jwks, hstep, rfl⟩ := Option.map_eq_some_iff.mp ht
  have hw : Sound library config (s.write (fetches s.jwks i answer)) := by
    cases answer with
    | error error => exact (write_nil s).symm ▸ h
    | ok jwks =>
      rw [fetches]
      split
      · rename_i kid forced now uri hc
        apply h.write
        exact h.sourced.calls i _ hc
      · exact (write_nil s).symm ▸ h
  have htold : HttpJwks.Event.Told (.discovered · ∈ (s.write (fetches s.jwks i answer)).journal)
      (Fetched (s.write (fetches s.jwks i answer)).journal) s.jwks (.fetched i answer) := by
    cases answer with
    | error error => trivial
    | ok jwks =>
      intro kid forced now uri hc
      rw [fetches, hc]
      exact List.mem_append_right _ (List.mem_singleton_self _)
  have hsource := HttpJwks.sourced_step hw.sourced htold hstep
  obtain ⟨call, hc, hstep⟩ := Option.bind_eq_some_iff.mp hstep
  exact hw.settle hsource hc (HttpJwks.fetched_advanced hstep)

private theorem tick_sound {duration : Nat} (h : Sound library config s) (ht : step library config s (.tick duration) = some t) :
    Sound library config t := by
  cases ht
  apply h.source
  · exact ⟨h.sourced.keys, h.sourced.jwksUri, h.sourced.calls, h.sourced.returned⟩
  · exact fun j call hc => ⟨call, hc, rfl⟩

/-- What is found has been stored and has not expired. -/
theorem Stored.found {journal : List Entry} {cache : IntrospectionEntries Digest} (h : Stored config journal cache) {now : Nat}
    {digest : Digest} {active : Bool} (hfound : (cache.get now digest).1 = some active) :
    ∃ ticket stored, .stored ticket stored digest active ∈ journal ∧
      now < stored + Duration.fromSecs (introspectionCache config).ttlSecs := by
  rw [IntrospectionEntries.get_eq_live] at hfound
  obtain ⟨⟨_, expiresAt⟩, hlive, rfl⟩ := Option.map_eq_some_iff.mp hfound
  obtain ⟨hheld, hlt⟩ := Option.filter_eq_some_iff.mp hlive
  obtain ⟨ticket, stored, hstored, rfl⟩ := h digest _ expiresAt hheld
  exact ⟨ticket, stored, hstored, of_decide_eq_true hlt⟩

private theorem Stored.get {journal : List Entry} {cache : IntrospectionEntries Digest} (h : Stored config journal cache) (now : Nat)
    (digest : Digest) : Stored config journal (cache.get now digest).2 := by
  intro other active expiresAt hheld
  rw [IntrospectionEntries.held_get] at hheld
  split at hheld
  · rename_i heq
    subst heq
    exact h other active expiresAt (Option.filter_eq_some_iff.mp hheld).1
  · exact h other active expiresAt hheld

private theorem lookup_sound {now : Nat} (h : Sound library config s) (ht : step library config s (.lookup i now) = some t) :
    Sound library config t := by
  rw [step] at ht
  split at ht
  · rename_i ticket bearer digest next hcall
    cases ht
    have hw : Sound library config (s.write (findings ticket now digest (s.cache.get now digest).1)) := by
      cases hfound : (s.cache.get now digest).1 with
      | none => exact (write_nil s).symm ▸ h
      | some active => exact h.write (h.stored.found hfound)
    have hset := hw.set (h.keyless hcall (by simp)) (some ⟨ticket, bearer, next (s.cache.get now digest).1⟩) ?_
    · exact { hset with sized := hw.sized.get now digest, stored := hw.stored.get now digest }
    · rintro _ ⟨⟩
      apply (hw.calls i _ hcall).answered
      intro more hsub
      cases hfound : (s.cache.get now digest).1 with
      | none => trivial
      | some active =>
        refine ⟨now, hsub ?_⟩
        rw [hfound]
        exact List.mem_append_right _ (List.mem_singleton_self _)
  · cases ht

private theorem introspect_sound {answer : Except IntrospectError Bool} (h : Sound library config s)
    (ht : step library config s (.introspect i answer) = some t) : Sound library config t := by
  rw [step] at ht
  split at ht
  · rename_i ticket bearer token next hcall
    cases ht
    have hw : Sound library config (s.write (introspections ticket token answer)) := by
      cases answer with
      | error error => exact (write_nil s).symm ▸ h
      | ok active => exact h.write trivial
    apply hw.set (h.keyless hcall (by simp)) (some _)
    rintro _ ⟨⟩
    apply (hw.calls i _ hcall).answered
    intro more hsub
    cases answer with
    | error error => trivial
    | ok active => exact hsub (List.mem_append_right _ (List.mem_singleton_self _))
  · cases ht

private theorem introspectionCache_pos : 0 < (introspectionCache config).maxEntries := by
  change 0 < maxIntrospectionEntries
  decide

private theorem store_sound {now : Nat} (h : Sound library config s) (ht : step library config s (.store i now) = some t) :
    Sound library config t := by
  rw [step] at ht
  split at ht
  · rename_i ticket bearer digest active next hcall
    cases ht
    have hw : Sound library config (s.write [.stored ticket now digest active]) :=
      h.write (h.calls i _ hcall s.journal (List.Subset.refl _)).1
    have hset := hw.set (h.keyless hcall (by simp)) (some ⟨ticket, bearer, next ()⟩) ?_
    · refine { hset with sized := hw.sized.insert introspectionCache_pos now digest active, stored := ?_ }
      intro other answer expiresAt hheld
      rw [IntrospectionEntries.held_insert h.sized.tracked] at hheld
      split at hheld
      · rename_i heq
        subst heq
        cases hheld
        exact ⟨ticket, now, List.mem_append_right _ (List.mem_singleton_self _), rfl⟩
      · split at hheld
        · cases hheld
        · exact hw.stored other answer expiresAt hheld
    · rintro _ ⟨⟩
      exact (hw.calls i _ hcall).answered fun _ _ => trivial
  · cases ht

private theorem finish_sound (h : Sound library config s) (ht : step library config s (.finish i) = some t) : Sound library config t := by
  rw [step] at ht
  split at ht
  · rename_i ticket bearer result hcall
    cases ht
    have hw : Sound library config (s.write [.answered i ticket bearer result]) :=
      h.write (h.calls i _ hcall s.journal (List.Subset.refl _))
    apply hw.set (h.keyless hcall (by simp)) none
    rintro _ ⟨⟩
  · cases ht

private theorem abandon_sound (h : Sound library config s) (ht : step library config s (.abandon i) = some t) : Sound library config t := by
  rw [step] at ht
  split at ht
  · cases ht
    cases hk : s.jwks.calls i with
    | none =>
      have hstep : HttpJwks.step (refreshAfter config) s.jwks (.cancel i) = none := by rw [HttpJwks.step, hk]; rfl
      rw [hstep]
      exact h.set hk none (by rintro _ ⟨⟩)
    | some call =>
      have hstep : HttpJwks.step (refreshAfter config) s.jwks (.cancel i) = some (HttpJwks.cancel s.jwks i call.phase) := by
        rw [HttpJwks.step, hk]
        rfl
      have hsource := HttpJwks.sourced_step h.sourced (by trivial) hstep
      have hcalls : (HttpJwks.cancel s.jwks i call.phase).calls = Function.update s.jwks.calls i none := by
        rw [HttpJwks.cancel]
        split <;> rfl
      have hsound : Sound library config { s with jwks := HttpJwks.cancel s.jwks i call.phase } := by
        apply h.source hsource
        intro j c hc
        rw [hcalls, Function.update_apply] at hc
        split at hc
        · cases hc
        · exact ⟨c, hc, rfl⟩
      rw [hstep]
      apply hsound.set
      · rw [hcalls, Function.update_self]
      · rintro _ ⟨⟩
  · cases ht

private theorem sweep_sound {now : Nat} (h : Sound library config s) (ht : step library config s (.sweep now) = some t) :
    Sound library config t := by
  cases ht
  refine { h with sized := h.sized.sweep now, stored := ?_ }
  intro digest active expiresAt hheld
  rw [IntrospectionEntries.held_sweep h.sized.tracked] at hheld
  exact h.stored digest active expiresAt (Option.filter_eq_some_iff.mp hheld).1

private theorem sound_step {e : Event} (h : Sound library config s) (ht : (machine library config).step s e = some t) :
    Sound library config t := by
  cases e with
  | start i bearer => exact start_sound h ht
  | ask i => exact ask_sound h ht
  | go i => exact go_sound h ht
  | discovered i answer => exact discovered_sound h ht
  | fetched i answer => exact fetched_sound h ht
  | tick duration => exact tick_sound h ht
  | lookup i now => exact lookup_sound h ht
  | introspect i answer => exact introspect_sound h ht
  | store i now => exact store_sound h ht
  | finish i => exact finish_sound h ht
  | abandon i => exact abandon_sound h ht
  | sweep now => exact sweep_sound h ht

private theorem sound_init : Sound library config .init := by
  constructor
  case sourced => exact HttpJwks.sourced_init
  case asked => rintro i call ⟨⟩
  case sized => exact IntrospectionEntries.sized_empty _
  case stored => rintro digest active expiresAt ⟨⟩
  case calls => rintro i call ⟨⟩
  case explained =>
    intro before e h
    cases before <;> cases List.prefix_nil.mp h

theorem authentication_sound {events : List Event} (hrun : (machine library config).run .init events = some s) : Sound library config s :=
  Machine.run_invariant (fun _ _ _ => sound_step) hrun sound_init

end Steps
end Invariant

/-- A credential that was accepted had every reason before. -/
theorem Sound.accepted {Key : Type} {library : Library Key} {config : Config} {s : State} (h : Sound library config s)
    {before : List Entry} {call ticket : Nat} {bearer : String} {identity : Identity}
    (haccepted : before ++ [.answered call ticket bearer (.ok (some identity))] <+: s.journal) :
    Trusted library config before ticket bearer identity := by
  have hvouched : Vouches library config before ticket bearer (.ok (some identity)) := h.explained before _ haccepted
  apply (hvouched identity rfl).trusted
  intro earlier e hbegins
  exact h.explained earlier e (hbegins.trans ((List.prefix_append _ _).trans haccepted))

/-- An accepted configuration knows the pool of everyone that it trusts. -/
theorem Trusted.pool {Key : Type} {library : Library Key} {config : Config} {parsers : Parsers} {before : List Entry}
    {ticket : Nat} {bearer : String} {identity : Identity} (hvalid : config.validate parsers = .ok ())
    (h : Trusted library config before ticket bearer identity) : ∃ pool, config.pools.get identity.pool = some pool := by
  cases h with
  | configured htoken => exact Config.validate_token hvalid htoken
  | verified _ _ _ _ _ _ _ hidentity _ =>
    obtain ⟨readOnly, isAdmin, scripts, -, hscripts, rfl⟩ := identity_eq_ok hidentity
    obtain ⟨pool, hpool, -⟩ := Option.map_eq_some_iff.mp hscripts
    exact ⟨pool, hpool⟩

section Tickets
variable {Key : Type} {library : Library Key} {config : Config} {s t : State}

/-- Every call has a ticket of its own, under which there is no answer while it goes on and
one answer at most. -/
structure Ticketed (s : State) : Prop where
  started : ∀ i call, s.calls i = some call → call.ticket < s.started
  distinct : ∀ i j call other, s.calls i = some call → s.calls j = some other → call.ticket = other.ticket → i = j
  unanswered : ∀ i call, s.calls i = some call → call.ticket ∉ answers s.journal
  answered : ∀ ticket ∈ answers s.journal, ticket < s.started
  nodup : (answers s.journal).Nodup

private theorem ticketed_init : Ticketed .init := by
  constructor <;> simp [State.init, answers]

private theorem Framed.ticketed (h : Ticketed s) (hframed : Framed s t) : Ticketed t := by
  have hold : ∀ i call, t.calls i = some call → ∃ old, s.calls i = some old ∧ old.ticket = call.ticket := by
    intro i call hc
    have hkeys := hframed.keys i
    rw [hc] at hkeys
    obtain ⟨old, ho, hk⟩ := Option.map_eq_some_iff.mp hkeys.symm
    exact ⟨old, ho, congrArg Prod.fst hk⟩
  constructor
  case started =>
    intro i call hc
    obtain ⟨old, ho, hk⟩ := hold i call hc
    rw [← hk, hframed.started]
    exact h.started i old ho
  case distinct =>
    intro i j call other hc hother heq
    obtain ⟨old, ho, hk⟩ := hold i call hc
    obtain ⟨old', ho', hk'⟩ := hold j other hother
    exact h.distinct i j old old' ho ho' (by rw [hk, hk', heq])
  case unanswered =>
    intro i call hc
    obtain ⟨old, ho, hk⟩ := hold i call hc
    rw [← hk, hframed.answers]
    exact h.unanswered i old ho
  case answered =>
    rw [hframed.answers, hframed.started]
    exact h.answered
  case nodup =>
    rw [hframed.answers]
    exact h.nodup

private theorem Ticketed.start (h : Ticketed s) {i : Nat} {bearer : String} (ht : step library config s (.start i bearer) = some t) :
    Ticketed t := by
  obtain ⟨hcalls, hstarted, hjournal⟩ := start_calls ht
  have hcall : ∀ j call, t.calls j = some call → j = i ∧ call.ticket = s.started ∨ j ≠ i ∧ s.calls j = some call := by
    intro j call hc
    rw [hcalls, Function.update_apply] at hc
    split at hc
    · rename_i hj
      cases hc
      exact .inl ⟨hj, rfl⟩
    · rename_i hj
      exact .inr ⟨hj, hc⟩
  constructor
  case started =>
    intro j call hc
    rw [hstarted]
    rcases hcall j call hc with ⟨-, hticket⟩ | ⟨-, hc⟩
    · omega
    · exact Nat.lt_succ_of_lt (h.started j call hc)
  case distinct =>
    intro j k call other hc ho heq
    rcases hcall j call hc with ⟨rfl, hticket⟩ | ⟨-, hc⟩ <;> rcases hcall k other ho with ⟨rfl, hticket'⟩ | ⟨-, ho⟩
    · rfl
    · exact absurd (h.started k other ho) (by omega)
    · exact absurd (h.started j call hc) (by omega)
    · exact h.distinct j k call other hc ho heq
  case unanswered =>
    intro j call hc hm
    rw [hjournal] at hm
    rcases hcall j call hc with ⟨-, hticket⟩ | ⟨-, hc⟩
    · exact absurd (h.answered _ hm) (by omega)
    · exact h.unanswered j call hc hm
  case answered =>
    intro ticket hm
    rw [hjournal] at hm
    rw [hstarted]
    exact Nat.lt_succ_of_lt (h.answered ticket hm)
  case nodup =>
    rw [hjournal]
    exact h.nodup

/-- A call ends, with an answer under its ticket or without one. -/
private theorem Ticketed.stop (h : Ticketed s) {i : Nat} {call : Call} {more : List Nat} (hc : s.calls i = some call)
    (hcalls : t.calls = Function.update s.calls i none) (hstarted : t.started = s.started)
    (hanswers : answers t.journal = answers s.journal ++ more) (hmore : more = [] ∨ more = [call.ticket]) : Ticketed t := by
  have hother : ∀ j other, t.calls j = some other → j ≠ i ∧ s.calls j = some other := by
    intro j other hj
    rw [hcalls, Function.update_apply] at hj
    split at hj
    · cases hj
    · rename_i hne
      exact ⟨hne, hj⟩
  have hticket : ∀ ticket ∈ more, ticket = call.ticket := by
    rcases hmore with rfl | rfl <;> simp
  constructor
  case started =>
    intro j other hj
    rw [hstarted]
    exact h.started j other (hother j other hj).2
  case distinct =>
    intro j k other another hj hk heq
    exact h.distinct j k other another (hother j other hj).2 (hother k another hk).2 heq
  case unanswered =>
    intro j other hj hm
    rw [hanswers] at hm
    obtain ⟨hne, hj⟩ := hother j other hj
    rcases List.mem_append.mp hm with hm | hm
    · exact h.unanswered j other hj hm
    · exact hne (h.distinct j i other call hj hc (hticket _ hm))
  case answered =>
    intro ticket hm
    rw [hanswers] at hm
    rw [hstarted]
    rcases List.mem_append.mp hm with hm | hm
    · exact h.answered ticket hm
    · rw [hticket _ hm]
      exact h.started i call hc
  case nodup =>
    rw [hanswers]
    rcases hmore with rfl | rfl
    · simpa using h.nodup
    · exact List.nodup_append.mpr ⟨h.nodup, List.nodup_singleton _, fun ticket hm other ho heq =>
        h.unanswered i call hc (by rwa [heq, List.mem_singleton.mp ho] at hm)⟩

private theorem ticketed_step {e : Event} (h : Ticketed s) (ht : step library config s e = some t) : Ticketed t := by
  cases he : e.inner with
  | true => exact (framed_step he ht).ticketed h
  | false =>
    cases e with
    | start i bearer => exact h.start ht
    | finish i =>
      have hstep := ht
      rw [step] at hstep
      split at hstep
      · rename_i hc
        obtain ⟨hcalls, hstarted, hjournal⟩ := finish_calls hc ht
        exact h.stop hc hcalls hstarted (by rw [hjournal, answers_append]; rfl) (.inr rfl)
      · cases hstep
    | abandon i =>
      obtain ⟨hcalls, hstarted, hjournal⟩ := abandon_calls ht
      cases hc : s.calls i with
      | none =>
        rw [step, hc] at ht
        cases ht
      | some call => exact h.stop hc hcalls hstarted (by rw [hjournal, List.append_nil]) (.inl rfl)
    | _ => cases he

/-- A ticket is answered once. -/
theorem answered_once {events : List Event} (hrun : (machine library config).run .init events = some s) {before : List Entry}
    {call ticket : Nat} {bearer : String} {result : Except AuthError (Option Identity)}
    (hanswered : before ++ [.answered call ticket bearer result] <+: s.journal) : ticket ∉ answers before := by
  have hnodup := (Machine.run_invariant (fun _ _ _ => ticketed_step) hrun ticketed_init).nodup
  obtain ⟨after, hjournal⟩ := hanswered
  rw [← hjournal, answers_append, answers_append, List.nodup_append] at hnodup
  intro hm
  exact (List.nodup_append.mp hnodup.1).2.2 ticket hm ticket (List.mem_singleton_self _) rfl

end Tickets

/-- In every interleaving of any calls a credential is accepted only with reason: what it
rests on was learned before, the key from a published set, the claims under that key, and
the activity from the service, in the call itself or less than one lifetime of the cache
before it looked there. The ticket is that of one call, for it has no other answer. -/
theorem acceptance_justified {Key : Type} (library : Library Key) (config : Config) (events : List Event) (s : State)
    (hrun : (machine library config).run .init events = some s) (before : List Entry) (call ticket : Nat)
    (bearer : String) (identity : Identity) (haccepted : before ++ [.answered call ticket bearer (.ok (some identity))] <+: s.journal) :
    Trusted library config before ticket bearer identity ∧ ticket ∉ answers before :=
  ⟨(authentication_sound hrun).accepted haccepted, answered_once hrun haccepted⟩

section Sample

def signingLibrary : Library Unit where
  decodeHeader _ := some ⟨some "k"⟩
  decodingKey _ := some ()
  decode _ _ _ := some (sampleClaims ["redis:read"] [])
  parseJson _ := none
  sha256 _ := Vector.replicate 32 0

def introspectingConfig : Config :=
  { Config.fromEnvMode (Vector.replicate 32 1) "redis://localhost:6379" none with
    auth := ⟨some { sampleConfig with introspection := ⟨true, "https://issuer.test/introspect", "srh", "secret", 30⟩ }, .empty⟩ }

def signingKey : HttpJwks.Jwk := ⟨some .signature, none, some "k", none, .rsa, []⟩

def firstToken : List Event :=
  [.start 0 "a.b.c", .ask 0, .go 0, .go 0, .go 0, .go 0, .go 0, .discovered 0 (.ok "https://issuer.test/keys"),
    .fetched 0 (.ok [signingKey]), .go 0, .go 0, .lookup 0 5, .introspect 0 (.ok true), .store 0 6, .finish 0]

def accepts (bearer : String) (journal : List Entry) : Bool :=
  match journal.getLast? with
  | some (.answered _ _ asked (.ok (some _))) => asked = bearer
  | _ => false

theorem of_accepts {bearer : String} {journal : List Entry} (h : accepts bearer journal = true) :
    ∃ before call ticket identity, journal = before ++ [.answered call ticket bearer (.ok (some identity))] := by
  rw [accepts] at h
  split at h
  · rename_i call ticket asked identity hlast
    rw [of_decide_eq_true h] at hlast
    exact ⟨journal.dropLast, call, ticket, identity, (List.dropLast_append_getLast? _ hlast).symm⟩
  · cases h

theorem acceptance_justified_sample :
    ∃ s before call ticket identity, (machine signingLibrary introspectingConfig).run .init firstToken = some s ∧
      s.journal = before ++ [.answered call ticket "a.b.c" (.ok (some identity))] ∧
      Trusted signingLibrary introspectingConfig before ticket "a.b.c" identity := by
  have h : ((machine signingLibrary introspectingConfig).run .init firstToken).map (fun s => accepts "a.b.c" s.journal) =
      some true := by decide +kernel
  obtain ⟨s, hrun, haccepts⟩ := Option.map_eq_some_iff.mp h
  obtain ⟨before, call, ticket, identity, hjournal⟩ := of_accepts haccepts
  exact ⟨s, before, call, ticket, identity, hrun, hjournal,
    (acceptance_justified signingLibrary introspectingConfig firstToken s hrun before call ticket "a.b.c" identity
      (by rw [hjournal])).1⟩

end Sample
end Srh.Adapters.Authentication
