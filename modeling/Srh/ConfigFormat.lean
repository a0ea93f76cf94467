import Srh.ConfigLegacy
import Srh.Lib.Serde

/-! The two file formats of config.rs as JSON documents, and the choice between them.
The readers are those derived for the raw structures, under the structures' names. -/
namespace Srh
open Srh.Lib Srh.Lib.Serde Srh.Domain

section Server

def tlsConfig : Reader (String × String) := fun value => do
  let given ← fields ["cert", "key"] true value
  let cert ← required given "cert" text
  let key ← required given "key" text
  some (cert, key)

def rawRateLimitConfig : Reader RateLimitConfig := fun value => do
  let given ← fields ["per_token_commands_per_sec"] true value
  let perTokenCommandsPerSec ← field given "per_token_commands_per_sec" (unsigned 64) 0
  some ⟨perTokenCommandsPerSec⟩

def rawLoadConfig : Reader LoadConfig := fun value => do
  let default := ServerConfig.default.load
  let given ← fields ["max_in_flight", "max_response_bytes", "shed_retry_after_secs", "body_read_timeout_ms"] true value
  let maxInFlight ← field given "max_in_flight" (unsigned 64) default.maxInFlight
  let maxResponseBytes ← field given "max_response_bytes" (unsigned 64) default.maxResponseBytes
  let shedRetryAfterSecs ← field given "shed_retry_after_secs" (unsigned 64) default.shedRetryAfterSecs
  let bodyReadTimeoutMs ← field given "body_read_timeout_ms" (unsigned 64) default.bodyReadTimeoutMs
  some ⟨maxInFlight, maxResponseBytes, shedRetryAfterSecs, bodyReadTimeoutMs⟩

def serverFields : List String :=
  ["port", "bind", "tls", "max_body_bytes", "max_pipeline_commands", "max_request_elements", "http_timeout_ms",
    "rate_limit", "load", "metrics_bind"]

/-- The certificate is read, and left out of the server configuration. -/
def rawServerConfig : Reader ServerConfig := fun value => do
  let default := ServerConfig.default
  let given ← fields serverFields true value
  let port ← field given "port" (unsigned 16) default.port
  let bind ← field given "bind" text default.bind
  let _tls ← field given "tls" (optional tlsConfig) none
  let maxBodyBytes ← field given "max_body_bytes" (unsigned 64) default.maxBodyBytes
  let maxPipelineCommands ← field given "max_pipeline_commands" (unsigned 64) default.maxPipelineCommands
  let maxRequestElements ← field given "max_request_elements" (unsigned 64) default.maxRequestElements
  let httpTimeoutMs ← field given "http_timeout_ms" (unsigned 64) default.httpTimeoutMs
  let rateLimit ← field given "rate_limit" rawRateLimitConfig default.rateLimit
  let load ← field given "load" rawLoadConfig default.load
  let metricsBind ← field given "metrics_bind" text default.metricsBind
  some ⟨port, bind, maxBodyBytes, maxPipelineCommands, maxRequestElements, httpTimeoutMs, rateLimit, load, metricsBind⟩

end Server

section Auth

def rawIntrospectionConfig : Reader IntrospectionConfig := fun value => do
  let given ← fields ["enabled", "url", "client_id", "client_secret", "cache_secs"] true value
  let enabled ← field given "enabled" bool false
  let url ← field given "url" text ""
  let clientId ← field given "client_id" text ""
  let clientSecret ← field given "client_secret" text ""
  let cacheSecs ← field given "cache_secs" (unsigned 64) 30
  some ⟨enabled, url, clientId, clientSecret, cacheSecs⟩

def rawJwtConfig : Reader JwtConfig := fun value => do
  let given ← fields ["issuer", "audience", "jwks_refresh_secs", "role_prefix", "client_id", "introspection"] true value
  let issuer ← field given "issuer" text ""
  let audience ← field given "audience" text ""
  let jwksRefreshSecs ← field given "jwks_refresh_secs" (unsigned 64) 600
  let rolePrefix ← field given "role_prefix" text "redis:"
  let clientId ← field given "client_id" text "srh"
  let introspection ← field given "introspection" rawIntrospectionConfig ⟨false, "", "", "", 30⟩
  some ⟨issuer, audience, jwksRefreshSecs, rolePrefix, clientId, introspection⟩

def rawStaticTokenConfig : Reader RawStaticTokenConfig := fun value => do
  let given ← fields
    ["pool", "read_only", "allowed_commands", "blocked_commands", "allowed_script_sha256", "key_prefix"] true value
  let pool ← field given "pool" text ""
  let readOnly ← field given "read_only" bool false
  let allowedCommands ← field given "allowed_commands" (optional (list text)) none
  let blockedCommands ← field given "blocked_commands" (list text) []
  let allowedScriptSha256 ← field given "allowed_script_sha256" (list text) []
  let keyPrefix ← field given "key_prefix" (optional text) none
  some ⟨pool, readOnly, allowedCommands, blockedCommands, allowedScriptSha256, keyPrefix⟩

def rawAuthConfig : Reader RawAuthConfig := fun value => do
  let given ← fields ["jwt", "static_tokens"] true value
  let jwt ← field given "jwt" (optional rawJwtConfig) none
  let staticTokens ← field given "static_tokens" (map rawStaticTokenConfig) .empty
  some ⟨jwt, staticTokens⟩

end Auth

section Pools

def rawBreakerConfig : Reader BreakerConfig := fun value => do
  let given ← fields ["failure_threshold", "cooldown_ms"] true value
  let failureThreshold ← field given "failure_threshold" (unsigned 64) BreakerConfig.default.failureThreshold
  let cooldownMs ← field given "cooldown_ms" (unsigned 64) BreakerConfig.default.cooldownMs
  some ⟨failureThreshold, cooldownMs⟩

def defaultMaxConnections : Nat := 3

def rawPoolConfig : Reader RawPoolConfig := fun value => do
  let given ← fields
    ["connection_string", "max_connections", "command_timeout_ms", "acquire_timeout_ms", "max_waiters", "breaker",
      "allowed_script_sha256"] true value
  let connectionString ← field given "connection_string" text ""
  let maxConnections ← field given "max_connections" (unsigned 64) defaultMaxConnections
  let commandTimeoutMs ← field given "command_timeout_ms" (unsigned 64) 2000
  let acquireTimeoutMs ← field given "acquire_timeout_ms" (unsigned 64) 500
  let maxWaiters ← field given "max_waiters" (optional (unsigned 64)) none
  let breaker ← field given "breaker" rawBreakerConfig .default
  let allowedScriptSha256 ← field given "allowed_script_sha256" (list text) []
  some ⟨connectionString, maxConnections, commandTimeoutMs, acquireTimeoutMs, maxWaiters, breaker, allowedScriptSha256⟩

def rawConfig : Reader RawConfig := fun value => do
  let given ← fields ["server", "auth", "pools"] true value
  let server ← field given "server" rawServerConfig .default
  let auth ← field given "auth" rawAuthConfig ⟨none, .empty⟩
  let pools ← field given "pools" (map rawPoolConfig) .empty
  some ⟨server, auth, pools⟩

def rawLegacyToken : Reader RawLegacyToken := fun value => do
  let given ← fields ["srh_id", "connection_string", "max_connections"] false value
  let srhId ← field given "srh_id" (optional text) none
  let connectionString ← required given "connection_string" text
  let maxConnections ← field given "max_connections" (unsigned 64) defaultMaxConnections
  some ⟨srhId, connectionString, maxConnections⟩

end Pools

inductive FileError where
  | json
  | invalid (error : ConfigError)
  deriving DecidableEq, Repr

/-- How the maps of a document are iterated. -/
structure Iteration where
  staticTokens : FiniteMap String RawStaticTokenConfig → List (String × RawStaticTokenConfig)
  staticTokens_perm : ∀ entries, (staticTokens entries).Perm entries.toList
  legacyTokens : FiniteMap String RawLegacyToken → List (String × RawLegacyToken)
  legacyTokens_perm : ∀ entries, (legacyTokens entries).Perm entries.toList

def hasConnectionString : Json → Bool
  | .object members => members.any fun member => member.1 = "connection_string"
  | _ => false

def isLegacy : Json → Bool
  | .object members => members.any fun member => hasConnectionString member.2
  | _ => false

def deserialized {α : Type} (read : Option α) (build : α → Except ConfigError Config) : Except FileError Config :=
  match read with
  | none => .error .json
  | some raw => (build raw).mapError .invalid

private theorem deserialized_eq_ok {α : Type} {read : Option α} {build : α → Except ConfigError Config} {config : Config} :
    deserialized read build = .ok config ↔ ∃ raw, read = some raw ∧ build raw = .ok config := by
  cases read with
  | none =>
    constructor
    · intro h
      cases h
    · rintro ⟨_, h, -⟩
      cases h
  | some raw =>
    rw [deserialized, mapError_eq_ok]
    constructor
    · exact fun h => ⟨raw, rfl, h⟩
    · rintro ⟨_, hraw, h⟩
      cases hraw
      exact h

section Load
variable (sha256 : Bytes → Digest) (parsers : Parsers) (iteration : Iteration)

def Config.readLegacyValue (value : Json) : Except FileError Config :=
  deserialized (map rawLegacyToken value) fun entries =>
    Config.fromLegacyEntries sha256 (iteration.legacyTokens entries)

def Config.readNewValue (value : Json) : Except FileError Config :=
  deserialized (rawConfig value) fun raw =>
    Config.fromNewValue sha256 raw (iteration.staticTokens raw.auth.staticTokens)

def Config.validated (read : Except FileError Config) : Except FileError Config := do
  let config ← read
  (config.validate parsers).mapError .invalid
  .ok config

/-- The document after its text has been parsed. -/
def Config.fromJson (value : Json) : Except FileError Config :=
  Config.validated parsers
    (if isLegacy value then Config.readLegacyValue sha256 iteration value else Config.readNewValue sha256 iteration value)

end Load

section Sections
variable {value : Json}

/-- A record without a field of this name is not taken for a legacy entry. -/
theorem hasConnectionString_of_fields {names : List String} {given : List (String × Json)}
    (h : fields names true value = some given) (hn : "connection_string" ∉ names) : hasConnectionString value = false := by
  rcases fields_shape h with ⟨members, rfl⟩ | ⟨items, rfl⟩
  · rw [hasConnectionString, List.any_eq_false]
    intro member hm hname
    have hmem := (fields_object h).1 rfl member hm
    rw [of_decide_eq_true hname] at hmem
    exact hn hmem
  · rfl

private theorem hasConnectionString_iff :
    hasConnectionString value = true ↔ ∃ members, value = .object members ∧ ∃ entry, ("connection_string", entry) ∈ members := by
  cases value with
  | object members =>
    rw [hasConnectionString, List.any_eq_true]
    constructor
    · rintro ⟨⟨name, entry⟩, hm, hname⟩
      obtain rfl : name = "connection_string" := of_decide_eq_true hname
      exact ⟨members, rfl, entry, hm⟩
    · rintro ⟨_, hms, entry, hm⟩
      cases hms
      exact ⟨_, hm, decide_eq_true rfl⟩
  | _ =>
    constructor
    · intro h
      cases h
    · rintro ⟨_, h, -⟩
      cases h

private theorem rawServerConfig_no_connection {server : ServerConfig} (h : rawServerConfig value = some server) :
    hasConnectionString value = false := by
  obtain ⟨given, hgiven, -⟩ := Option.bind_eq_some_iff.mp h
  exact hasConnectionString_of_fields hgiven (by decide)

private theorem rawAuthConfig_no_connection {auth : RawAuthConfig} (h : rawAuthConfig value = some auth) :
    hasConnectionString value = false := by
  obtain ⟨given, hgiven, -⟩ := Option.bind_eq_some_iff.mp h
  exact hasConnectionString_of_fields hgiven (by decide)

/-- A server written as an array starts with its port. -/
theorem rawServerConfig_array {first : Json} {items : List Json} {server : ServerConfig}
    (h : rawServerConfig (.array (first :: items)) = some server) : ∃ port, unsigned 16 first = some port := by
  obtain ⟨given, hgiven, h⟩ := Option.bind_eq_some_iff.mp h
  obtain ⟨port, hport, -⟩ := Option.bind_eq_some_iff.mp h
  rw [fields_array hgiven] at hport
  exact ⟨port, hport⟩

/-- The second entry of the authentication section written as an array is the map of tokens. -/
theorem rawAuthConfig_array {first second : Json} {items : List Json} {auth : RawAuthConfig}
    (h : rawAuthConfig (.array (first :: second :: items)) = some auth) :
    ∃ tokens, map rawStaticTokenConfig second = some tokens := by
  obtain ⟨given, hgiven, h⟩ := Option.bind_eq_some_iff.mp h
  obtain ⟨jwt, -, h⟩ := Option.bind_eq_some_iff.mp h
  obtain ⟨tokens, htokens, -⟩ := Option.bind_eq_some_iff.mp h
  rw [fields_array hgiven] at htokens
  exact ⟨tokens, htokens⟩

end Sections

section Documents
variable {members : List (String × Json)} {value : Json}

/-- Every member of a new document is one of its three sections. -/
theorem rawConfig_object {raw : RawConfig} (h : rawConfig (.object members) = some raw) {name : String}
    (hm : (name, value) ∈ members) :
    (name = "server" ∧ ∃ server, rawServerConfig value = some server) ∨
      (name = "auth" ∧ ∃ auth, rawAuthConfig value = some auth) ∨
      (name = "pools" ∧ ∃ pools, map rawPoolConfig value = some pools) := by
  obtain ⟨given, hgiven, h⟩ := Option.bind_eq_some_iff.mp h
  obtain ⟨server, hserver, h⟩ := Option.bind_eq_some_iff.mp h
  obtain ⟨auth, hauth, h⟩ := Option.bind_eq_some_iff.mp h
  obtain ⟨pools, hpools, -⟩ := Option.bind_eq_some_iff.mp h
  obtain ⟨hstrict, hnodup, hmem⟩ := fields_object hgiven
  have hname := hstrict rfl _ hm
  have hin := (hmem _).mpr ⟨hm, hname⟩
  rw [List.mem_cons, List.mem_pair] at hname
  rcases hname with hname | hname | hname
  · cases hname
    exact .inl ⟨rfl, server, field_given hnodup hserver hin⟩
  · cases hname
    exact .inr (.inl ⟨rfl, auth, field_given hnodup hauth hin⟩)
  · cases hname
    exact .inr (.inr ⟨rfl, pools, field_given hnodup hpools hin⟩)

/-- An accepted legacy entry has its connection string, by name or in the second place. -/
theorem rawLegacyToken_connection {token : RawLegacyToken} (h : rawLegacyToken value = some token) :
    (∃ members s, value = .object members ∧ ("connection_string", .string s) ∈ members) ∨
      ∃ first s items id, value = .array (first :: .string s :: items) ∧ optional text first = some id := by
  obtain ⟨given, hgiven, h⟩ := Option.bind_eq_some_iff.mp h
  obtain ⟨id, hid, h⟩ := Option.bind_eq_some_iff.mp h
  obtain ⟨s, hs, -⟩ := Option.bind_eq_some_iff.mp h
  obtain ⟨entry, hentry, htext⟩ := required_given hs
  obtain rfl := text_eq_some htext
  rcases fields_shape hgiven with ⟨members, rfl⟩ | ⟨items, rfl⟩
  · exact .inl ⟨members, s, rfl, (((fields_object hgiven).2.2 _).mp hentry).1⟩
  · rw [fields_array hgiven] at hid hs
    rcases items with _ | ⟨first, _ | ⟨second, items⟩⟩
    · cases hs
    · cases hs
    · obtain rfl := text_eq_some hs
      exact .inr ⟨first, s, items, id, rfl, hid⟩

/-- No value is both a section of a new document and an entry of a legacy one. -/
theorem not_rawLegacyToken {raw : RawConfig} (h : rawConfig (.object members) = some raw) {name : String}
    (hm : (name, value) ∈ members) (token : RawLegacyToken) : rawLegacyToken value ≠ some token := by
  intro ht
  rcases rawLegacyToken_connection ht with ⟨entries, s, rfl, hs⟩ | ⟨first, s, items, id, rfl, hid⟩
  · have hhas : hasConnectionString (.object entries) = true := hasConnectionString_iff.mpr ⟨entries, rfl, _, hs⟩
    rcases rawConfig_object h hm with ⟨-, server, hv⟩ | ⟨-, auth, hv⟩ | ⟨-, pools, hv⟩
    · rw [rawServerConfig_no_connection hv] at hhas
      cases hhas
    · rw [rawAuthConfig_no_connection hv] at hhas
      cases hhas
    · obtain ⟨pool, hpool⟩ := map_read hv _ hs
      cases hpool
  · rcases rawConfig_object h hm with ⟨-, server, hv⟩ | ⟨-, auth, hv⟩ | ⟨-, pools, hv⟩
    · obtain ⟨port, hport⟩ := rawServerConfig_array hv
      cases first with
      | number digits => cases hid
      | _ => cases hport
    · obtain ⟨tokens, htokens⟩ := rawAuthConfig_array hv
      cases htokens
    · cases hv

/-- Only the pools of a new document can hold the name that marks a legacy one. -/
theorem isLegacy_of_rawConfig {raw : RawConfig} (h : rawConfig (.object members) = some raw)
    (hl : isLegacy (.object members) = true) :
    ∃ pools entry, ("pools", .object pools) ∈ members ∧ ("connection_string", entry) ∈ pools := by
  obtain ⟨⟨name, value⟩, hm, hhas⟩ := List.any_eq_true.mp hl
  rcases rawConfig_object h hm with ⟨-, server, hv⟩ | ⟨-, auth, hv⟩ | ⟨rfl, -⟩
  · cases (rawServerConfig_no_connection hv).symm.trans hhas
  · cases (rawAuthConfig_no_connection hv).symm.trans hhas
  · obtain ⟨pools, rfl, entry, hentry⟩ := hasConnectionString_iff.mp hhas
    exact ⟨pools, entry, hm, hentry⟩

end Documents

def NamesConnectionString (value : Json) : Prop :=
  ∃ members pools entry, value = .object members ∧ ("pools", .object pools) ∈ members ∧ ("connection_string", entry) ∈ pools

def HasObjectMember (value : Json) : Prop :=
  ∃ members name entry, value = .object members ∧ (name, .object entry) ∈ members

section Agreement
variable {sha256 : Bytes → Digest} {parsers : Parsers} {iteration : Iteration} {value : Json} {config other : Config}

private theorem validated_eq_ok {read : Except FileError Config} :
    Config.validated parsers read = .ok config ↔ read = .ok config ∧ config.validate parsers = .ok () := by
  rw [Config.validated, bind_eq_ok]
  constructor
  · rintro ⟨c, hread, h⟩
    obtain ⟨hvalid, hc⟩ := check_then.mp h
    cases hc
    exact ⟨hread, mapError_eq_ok.mp hvalid⟩
  · rintro ⟨hread, hvalid⟩
    exact ⟨config, hread, check_then.mpr ⟨mapError_eq_ok.mpr hvalid, rfl⟩⟩

def emptyConfig : Config := { server := .default, auth := ⟨none, .empty⟩, pools := .empty }

private theorem readNewValue_empty : Config.readNewValue sha256 iteration (.object []) = .ok emptyConfig := by
  refine deserialized_eq_ok.mpr ⟨⟨.default, ⟨none, .empty⟩, .empty⟩, rfl, ?_⟩
  rw [List.perm_nil.mp (iteration.staticTokens_perm .empty)]
  rfl

private theorem readLegacyValue_empty : Config.readLegacyValue sha256 iteration (.object []) = .ok emptyConfig := by
  refine deserialized_eq_ok.mpr ⟨.empty, rfl, ?_⟩
  rw [List.perm_nil.mp (iteration.legacyTokens_perm .empty)]
  rfl

/-- Only the empty document is of both formats, and it means the same in both. -/
theorem empty_of_both (hnew : Config.readNewValue sha256 iteration value = .ok config)
    (hlegacy : Config.readLegacyValue sha256 iteration value = .ok other) : value = .object [] ∧ config = other := by
  obtain ⟨raw, hraw, -⟩ := deserialized_eq_ok.mp hnew
  obtain ⟨entries, hentries, -⟩ := deserialized_eq_ok.mp hlegacy
  obtain ⟨members, rfl⟩ := map_shape hentries
  cases members with
  | nil =>
    refine ⟨rfl, ?_⟩
    rw [readNewValue_empty] at hnew
    rw [readLegacyValue_empty] at hlegacy
    exact (Except.ok.inj hnew).symm.trans (Except.ok.inj hlegacy)
  | cons member members =>
    obtain ⟨token, htoken⟩ := map_read hentries member List.mem_cons_self
    exact absurd htoken (not_rawLegacyToken hraw List.mem_cons_self token)

private theorem not_isLegacy (hnew : Config.readNewValue sha256 iteration value = .ok config) (hn : ¬ NamesConnectionString value) :
    isLegacy value = false := by
  obtain ⟨raw, hraw, -⟩ := deserialized_eq_ok.mp hnew
  cases value with
  | object members =>
    rw [← Bool.not_eq_true]
    intro hl
    obtain ⟨pools, entry, hpools, hentry⟩ := isLegacy_of_rawConfig hraw hl
    exact hn ⟨members, pools, entry, rfl, hpools, hentry⟩
  | _ => rfl

private theorem isLegacy_of_member (hlegacy : Config.readLegacyValue sha256 iteration value = .ok config)
    (ho : HasObjectMember value) : isLegacy value = true := by
  obtain ⟨entries, hentries, -⟩ := deserialized_eq_ok.mp hlegacy
  obtain ⟨members, name, entry, rfl, hm⟩ := ho
  obtain ⟨token, htoken⟩ := map_read hentries _ hm
  refine List.any_eq_true.mpr ⟨_, hm, hasConnectionString_iff.mpr ⟨entry, rfl, ?_⟩⟩
  rcases rawLegacyToken_connection htoken with ⟨_, s, heq, hs⟩ | ⟨_, _, _, _, heq, -⟩
  · cases heq
    exact ⟨_, hs⟩
  · cases heq

/-- No token of a new document has the legacy rights. -/
theorem readNewValue_not_legacy (hnew : Config.readNewValue sha256 iteration value = .ok config) {digest : Digest}
    {token : StaticTokenConfig} (ht : config.auth.staticTokens.get digest = some token) : token.legacy = false := by
  obtain ⟨raw, -, h⟩ := deserialized_eq_ok.mp hnew
  obtain ⟨tokens, htokens, h⟩ := bind_eq_ok.mp h
  cases h
  rw [FiniteMap.get_mapVal] at ht
  obtain ⟨collected, hget, rfl⟩ := Option.map_eq_some_iff.mp ht
  rcases get_of_foldlM htokens hget with ⟨entry, -, -, rfl⟩ | hempty
  · rw [StaticTokenConfig.inheritScripts]
    split <;> rfl
  · cases hempty

private theorem fromJson_eq_ok (h : Config.fromJson sha256 parsers iteration value = .ok config) :
    Config.readNewValue sha256 iteration value = .ok config ∨ Config.readLegacyValue sha256 iteration value = .ok config := by
  have hread := (validated_eq_ok.mp h).1
  split at hread
  · exact .inr hread
  · exact .inl hread

end Agreement

section Detection
variable (sha256 : Bytes → Digest) (parsers : Parsers) (iteration : Iteration) (value : Json)

/-- The format is chosen as the readers would. A new document is loaded as such unless
a pool has the name that marks legacy entries, a legacy document with an entry written
as an object is loaded as such, only the empty document is of both formats, and what
either reader accepts is loaded in no other way. -/
theorem format_detection_agrees :
    (∀ config, Config.validated parsers (Config.readNewValue sha256 iteration value) = .ok config →
      ¬ NamesConnectionString value → Config.fromJson sha256 parsers iteration value = .ok config) ∧
    (∀ config, Config.validated parsers (Config.readLegacyValue sha256 iteration value) = .ok config →
      HasObjectMember value → Config.fromJson sha256 parsers iteration value = .ok config) ∧
    (∀ config other, Config.validated parsers (Config.readNewValue sha256 iteration value) = .ok config →
      Config.validated parsers (Config.readLegacyValue sha256 iteration value) = .ok other →
      value = .object [] ∧ config = other) ∧
    (∀ config loaded, Config.validated parsers (Config.readNewValue sha256 iteration value) = .ok config →
      Config.fromJson sha256 parsers iteration value = .ok loaded →
      loaded = config ∧ ∀ digest token, loaded.auth.staticTokens.get digest = some token → token.legacy = false) ∧
    ∀ config loaded, Config.validated parsers (Config.readLegacyValue sha256 iteration value) = .ok config →
      Config.fromJson sha256 parsers iteration value = .ok loaded → loaded = config := by
  refine ⟨?_, ?_, ?_, ?_, ?_⟩
  · intro config hnew hn
    rw [Config.fromJson, not_isLegacy (validated_eq_ok.mp hnew).1 hn]
    exact hnew
  · intro config hlegacy ho
    rw [Config.fromJson, isLegacy_of_member (validated_eq_ok.mp hlegacy).1 ho]
    exact hlegacy
  · intro config other hnew hlegacy
    exact empty_of_both (validated_eq_ok.mp hnew).1 (validated_eq_ok.mp hlegacy).1
  · intro config loaded hnew hloaded
    have hread := (validated_eq_ok.mp hnew).1
    have hsame : loaded = config := by
      rcases fromJson_eq_ok hloaded with h | h
      · exact Except.ok.inj (h.symm.trans hread)
      · exact (empty_of_both hread h).2.symm
    refine ⟨hsame, ?_⟩
    rw [hsame]
    exact fun digest token => readNewValue_not_legacy hread
  · intro config loaded hlegacy hloaded
    have hread := (validated_eq_ok.mp hlegacy).1
    rcases fromJson_eq_ok hloaded with h | h
    · exact (empty_of_both h hread).2
    · exact Except.ok.inj (h.symm.trans hread)

end Detection

section Fixed

def inOrder : Iteration := ⟨FiniteMap.toList, fun _ => .refl _, FiniteMap.toList, fun _ => .refl _⟩

def onePool (name : String) : Json :=
  .object [("pools", .object [(name, .object [("connection_string", .string "redis://localhost:6379")])])]

def listedToken : Json := .object [("token", .array [.null, .string "redis://localhost:6379"])]

def namedToken : Json := .object [("token", .object [("connection_string", .string "redis://localhost:6379")])]

theorem format_detection_agrees_pool :
    (∃ config, Config.fromJson firstByte lenient inOrder (onePool "cache") = .ok config ∧
      (config.pools.get "cache").map PoolConfig.connectionString = some "redis://localhost:6379") ∧
    (∃ config, Config.fromJson firstByte lenient inOrder namedToken = .ok config ∧
      (config.auth.staticTokens.get (firstByte [116])).map StaticTokenConfig.legacy = some true) ∧
    ∃ config other, Config.validated lenient (Config.readNewValue firstByte inOrder (.object [])) = .ok config ∧
      Config.validated lenient (Config.readLegacyValue firstByte inOrder (.object [])) = .ok other ∧ config = other := by
  have hpool := format_detection_agrees firstByte lenient inOrder (onePool "cache")
  have hnamed := format_detection_agrees firstByte lenient inOrder namedToken
  have hempty := format_detection_agrees firstByte lenient inOrder (.object [])
  refine ⟨⟨_, hpool.1 _ rfl ?_, rfl⟩, ⟨_, hnamed.2.1 _ rfl ⟨_, _, _, rfl, List.mem_cons_self⟩, rfl⟩,
    ⟨_, _, rfl, rfl, (hempty.2.2.1 _ _ rfl rfl).2⟩⟩
  rintro ⟨members, pools, entry, hvalue, hpools, hentry⟩
  cases hvalue
  cases List.mem_singleton.mp hpools
  have hname : "connection_string" = "cache" := congrArg Prod.fst (List.mem_singleton.mp hentry)
  exact absurd hname (by decide)

/-- The name of a pool can make a new document be refused, a legacy document of arrays
is refused too, and the empty document is of both formats. -/
theorem format_detection_disagrees :
    (∃ config, Config.validated lenient (Config.readNewValue firstByte inOrder (onePool "connection_string")) = .ok config ∧
      Config.fromJson firstByte lenient inOrder (onePool "connection_string") = .error .json) ∧
    (∃ config, Config.validated lenient (Config.readLegacyValue firstByte inOrder listedToken) = .ok config ∧
      Config.fromJson firstByte lenient inOrder listedToken = .error .json) ∧
    ∃ config, Config.validated lenient (Config.readNewValue firstByte inOrder (.object [])) = .ok config ∧
      Config.validated lenient (Config.readLegacyValue firstByte inOrder (.object [])) = .ok config :=
  ⟨⟨_, rfl, rfl⟩, ⟨_, rfl, rfl⟩, _, rfl, rfl⟩

end Fixed
end Srh
