import Srh.Adapters.Acceptance
import Srh.Adapters.HttpIntrospect

/-! The authenticator over HTTP: discovery, key sets and introspection are exchanges with
the identity provider, and the authenticator hears what the clients make of them. -/
namespace Srh.Adapters.IdentityProvider
open Srh.Lib Srh.Domain OutboundHttp HttpIntrospect
open HttpJwks (Jwk)

def discoveryLimit : Nat := 64 * 1024

def jwksLimit : Nat := 1024 * 1024

section Jwks
variable (foreign : Foreign)

def validateHttpUrl (value : String) : Except JwksError Unit := do
  let scheme ← (foreign.urlScheme value).mapError fun error => .unavailable ("invalid outbound URL: " ++ error)
  if scheme = "http" ∨ scheme = "https" then pure () else throw (.unavailable "outbound URL must use http or https")

def getRequest (url : String) : Except JwksError HttpRequest := do
  validateHttpUrl foreign url
  (foreign.uri url).mapError fun error => .unavailable ("invalid outbound HTTP request: " ++ error)
  pure ⟨.get, url, none, none, []⟩

def get (url : String) (limit : Nat) (exchange : Exchange) : Except JwksError Bytes := do
  let _ ← getRequest foreign url
  (requestBytes foreign limit exchange).mapError .unavailable

def discoveryUrl (issuer : String) : String :=
  String.ofList (issuer.toList.reverse.dropWhile (· = '/')).reverse ++ "/.well-known/openid-configuration"

def discovery : Serde.Reader String := fun value => do
  let given ← Serde.fields ["jwks_uri"] false value
  Serde.required given "jwks_uri" Serde.text

def fetchDiscovery (issuer : String) (exchange : Exchange) : Except JwksError String := do
  let body ← get foreign (discoveryUrl issuer) discoveryLimit exchange
  let uri ← (foreign.fromSlice discovery body).mapError fun error => .unavailable ("invalid OpenID discovery document: " ++ error)
  validateHttpUrl foreign uri
  pure uri

variable (readKeys : Bytes → Except String (List Jwk))

def fetchKeys (url : String) (exchange : Exchange) : Except JwksError (List Jwk) := do
  let body ← get foreign url jwksLimit exchange
  (readKeys body).mapError fun error => .unavailable ("invalid JWKS document: " ++ error)

variable {foreign readKeys}

end Jwks

/-- The clients of the identity provider, as main.rs makes them for a configuration. -/
structure Provider (config : Config) where
  foreign : Foreign
  readKeys : Bytes → Except String (List Jwk)
  issuer : String
  client : Except String Unit
  introspector : HttpIntrospector
  issuer_eq : ∀ jwt, config.auth.jwt = some jwt → issuer = jwt.issuer
  built : ∀ jwt, config.auth.jwt = some jwt → jwt.introspection.enabled →
    HttpIntrospector.new foreign client jwt.introspection.url jwt.introspection.clientId jwt.introspection.clientSecret =
      .ok introspector

structure State where
  authentication : Authentication.State
  exchanges : List (HttpRequest × Exchange)

inductive Event where
  | own (event : Authentication.Event)
  | discovered (call : Nat) (exchange : Exchange)
  | fetched (call : Nat) (exchange : Exchange)
  | introspected (call : Nat) (exchange : Exchange)

def offline : Authentication.Event → Bool
  | .discovered _ _ => false
  | .fetched _ _ => false
  | .introspect _ _ => false
  | _ => true

section Steps
variable {Key : Type} (library : Jwt.Library Key) (config : Config) (provider : Provider config)

/-- A request that cannot be built is not sent. -/
def sent {ε : Type} (request : Except ε HttpRequest) (exchange : Exchange) : List (HttpRequest × Exchange) :=
  match request with
  | .ok request => [(request, exchange)]
  | .error _ => []

def State.hear (s : State) (event : Authentication.Event) (exchanges : List (HttpRequest × Exchange)) : Option State :=
  (Authentication.step library config s.authentication event).map fun a => ⟨a, s.exchanges ++ exchanges⟩

def step (s : State) : Event → Option State
  | .own event => if offline event then s.hear library config event [] else none
  | .discovered i exchange =>
    s.hear library config (.discovered i (fetchDiscovery provider.foreign provider.issuer exchange))
      (sent (getRequest provider.foreign (discoveryUrl provider.issuer)) exchange)
  | .fetched i exchange =>
    match s.authentication.jwks.calls i with
    | some ⟨_, .fetching _ _ uri⟩ =>
      s.hear library config (.fetched i (fetchKeys provider.foreign provider.readKeys uri exchange))
        (sent (getRequest provider.foreign uri) exchange)
    | _ => none
  | .introspected i exchange =>
    match s.authentication.calls i with
    | some ⟨_, _, .ask (.isActive token) _⟩ =>
      s.hear library config (.introspect i (provider.introspector.isActive provider.foreign token exchange))
        (sent (provider.introspector.request provider.foreign token) exchange)
    | _ => none

def machine : Machine State Event := ⟨step library config provider⟩

def init : State := ⟨.init, []⟩

end Steps

/-- A request was answered with a success, whole and within a limit. -/
def Answered (exchanges : List (HttpRequest × Exchange)) (request : HttpRequest) (limit : Nat) (body : Bytes) : Prop :=
  ∃ exchange, (request, exchange) ∈ exchanges ∧ Delivers exchange limit body

section Witnesses
variable (foreign : Foreign) (exchanges : List (HttpRequest × Exchange))

def Web (uri : String) : Prop := ∃ scheme, foreign.urlScheme uri = .ok scheme ∧ (scheme = "http" ∨ scheme = "https")

def Names (issuer uri : String) : Prop :=
  ∃ body, Answered exchanges ⟨.get, discoveryUrl issuer, none, none, []⟩ discoveryLimit body ∧
    (foreign.parseJson body).bind discovery = some uri ∧ Web foreign uri

def Serves (readKeys : Bytes → Except String (List Jwk)) (uri : String) (jwks : List Jwk) : Prop :=
  ∃ body, Answered exchanges ⟨.get, uri, none, none, []⟩ jwksLimit body ∧ readKeys body = .ok jwks

/-- The service was sent the form of this token and of no other, and said whether the
token is active. -/
def Says (self : HttpIntrospector) (token : String) (active : Bool) : Prop :=
  ∃ request body, request.method = .post ∧ request.uri = self.url ∧ request.authorization = some self.authorization ∧
    (∀ other, request.body = foreign.appendPair "token" other ↔ other = token) ∧
    Answered exchanges request introspectionLimit body ∧
    (foreign.parseJson body).bind introspectionResponse = some active

def Witness {config : Config} (provider : Provider config) : Authentication.Entry → Prop
  | .discovered uri => Names provider.foreign exchanges provider.issuer uri
  | .fetched uri jwks => Serves exchanges provider.readKeys uri jwks
  | .introspected _ token active => Says provider.foreign exchanges provider.introspector token active
  | _ => True

variable {foreign exchanges} {config : Config} {provider : Provider config}

private theorem Answered.append {request : HttpRequest} {limit : Nat} {body : Bytes} (h : Answered exchanges request limit body)
    (more : List (HttpRequest × Exchange)) : Answered (exchanges ++ more) request limit body := by
  obtain ⟨exchange, hm, hd⟩ := h
  exact ⟨exchange, List.mem_append_left _ hm, hd⟩

private theorem Witness.append {entry : Authentication.Entry} (h : Witness exchanges provider entry)
    (more : List (HttpRequest × Exchange)) : Witness (exchanges ++ more) provider entry := by
  cases entry with
  | discovered uri =>
    obtain ⟨body, ha, hread⟩ := h
    exact ⟨body, ha.append more, hread⟩
  | fetched uri jwks =>
    obtain ⟨body, ha, hread⟩ := h
    exact ⟨body, ha.append more, hread⟩
  | introspected ticket token active =>
    obtain ⟨request, body, hmethod, huri, hauthorization, hform, ha, hread⟩ := h
    exact ⟨request, body, hmethod, huri, hauthorization, hform, ha.append more, hread⟩
  | _ => trivial

end Witnesses

section Runs
variable {Key : Type} {library : Jwt.Library Key} {config : Config} {provider : Provider config} {s t : State}

def Witnessed (provider : Provider config) (s : State) : Prop :=
  ∀ entry ∈ s.authentication.journal, Witness s.exchanges provider entry

private theorem Witnessed.hear (h : Witnessed provider s) {event : Authentication.Event} {exchanges : List (HttpRequest × Exchange)}
    (ht : s.hear library config event exchanges = some t)
    (hnew : ∀ entry, Authentication.Told s.authentication event entry → Witness (s.exchanges ++ exchanges) provider entry) :
    Witnessed provider t := by
  obtain ⟨authentication, ha, rfl⟩ := Option.map_eq_some_iff.mp ht
  intro entry hm
  rcases Authentication.told_step ha hm with hold | htold
  · exact (h entry hold).append exchanges
  · exact hnew entry htold

end Runs

section Sample
open Authentication (signingLibrary introspectingConfig signingKey)

def success (body : Bytes) : Exchange := .answered ⟨200, [.data body]⟩

end Sample
end Srh.Adapters.IdentityProvider
