import Srh.Lib.FiniteMap
import Srh.Lib.Guards
import Mathlib.Data.Finset.Empty

/-! The configuration of config.rs and its startup validation. Machine integers
are natural numbers, a map is iterated in an arbitrary order, and the parsers of
socket addresses and URLs are parameters. -/
namespace Srh
open Srh.Lib

structure RateLimitConfig where
  perTokenCommandsPerSec : Nat
  deriving DecidableEq, Repr

structure LoadConfig where
  maxInFlight : Nat
  maxResponseBytes : Nat
  shedRetryAfterSecs : Nat
  bodyReadTimeoutMs : Nat
  deriving DecidableEq, Repr

structure ServerConfig where
  port : Nat
  bind : String
  maxBodyBytes : Nat
  maxPipelineCommands : Nat
  maxRequestElements : Nat
  httpTimeoutMs : Nat
  rateLimit : RateLimitConfig
  load : LoadConfig
  metricsBind : String
  deriving DecidableEq, Repr

structure IntrospectionConfig where
  enabled : Bool
  url : String
  clientId : String
  clientSecret : String
  cacheSecs : Nat
  deriving DecidableEq, Repr

structure JwtConfig where
  issuer : String
  audience : String
  jwksRefreshSecs : Nat
  rolePrefix : String
  clientId : String
  introspection : IntrospectionConfig
  deriving DecidableEq, Repr

structure StaticTokenConfig where
  pool : String
  readOnly : Bool
  legacy : Bool
  allowedCommands : Option (Finset String)
  blockedCommands : Finset String
  allowedScriptSha256 : Finset String
  keyPrefix : Option String
  deriving DecidableEq

structure BreakerConfig where
  failureThreshold : Nat
  cooldownMs : Nat
  deriving DecidableEq, Repr

structure PoolConfig where
  connectionString : String
  maxConnections : Nat
  commandTimeoutMs : Nat
  acquireTimeoutMs : Nat
  maxWaiters : Nat
  breaker : BreakerConfig
  allowedScriptSha256 : Finset String
  deriving DecidableEq

abbrev Digest := Vector UInt8 32

structure AuthConfig where
  jwt : Option JwtConfig
  staticTokens : FiniteMap Digest StaticTokenConfig

structure Config where
  server : ServerConfig
  auth : AuthConfig
  pools : FiniteMap String PoolConfig

inductive ConfigError where
  | validation (message : String)
  deriving DecidableEq, Repr

/-- The standard library's socket address parser and the scheme found by the URL
parser, or their error texts. -/
structure Parsers where
  socketAddr : String → Except String Unit
  urlScheme : String → Except String String

def lenient : Parsers := ⟨fun _ => .ok (), fun _ => .ok "http"⟩

def ServerConfig.default : ServerConfig where
  port := 80
  bind := "127.0.0.1"
  maxBodyBytes := 10485760
  maxPipelineCommands := 1000
  maxRequestElements := 10000
  httpTimeoutMs := 10000
  rateLimit := ⟨0⟩
  load := ⟨512, 33554432, 1, 2000⟩
  metricsBind := "127.0.0.1:9422"

def BreakerConfig.default : BreakerConfig := ⟨10, 2000⟩

def saturatingMul (a b : Nat) : Nat := min (a * b) (2 ^ 64 - 1)

def PoolConfig.new (connectionString : String) (maxConnections commandTimeoutMs acquireTimeoutMs : Nat)
    (maxWaiters : Option Nat) (breaker : Option BreakerConfig) : PoolConfig where
  connectionString := connectionString
  maxConnections := maxConnections
  commandTimeoutMs := commandTimeoutMs
  acquireTimeoutMs := acquireTimeoutMs
  maxWaiters := maxWaiters.getD (saturatingMul maxConnections 4)
  breaker := breaker.getD .default
  allowedScriptSha256 := ∅

def defaultToken (pool : String) (legacy : Bool) : StaticTokenConfig := ⟨pool, false, legacy, none, ∅, ∅, none⟩

/-- The configuration of environment mode before the server overrides: one token
on the legacy policy and one pool. -/
def Config.fromEnvMode (token : Digest) (connectionString : String) (maxConnections : Option Nat) : Config where
  server := .default
  auth := ⟨none, FiniteMap.empty.insert token (defaultToken "default" true)⟩
  pools := FiniteMap.empty.insert "default"
    (.new connectionString (maxConnections.getD 3) 2000 500 none none)

abbrev Check := Except ConfigError Unit

section Validate
variable (parsers : Parsers)

def invalid {α : Type} (message : String) : Except ConfigError α := .error (.validation message)

def validateNonzero (name : String) (value : Nat) : Check :=
  if value = 0 then invalid s!"{name} must be greater than zero" else .ok ()

def validateServer (server : ServerConfig) : Check := do
  validateNonzero "server.port" server.port
  validateNonzero "server.max_body_bytes" server.maxBodyBytes
  validateNonzero "server.max_pipeline_commands" server.maxPipelineCommands
  validateNonzero "server.max_request_elements" server.maxRequestElements
  validateNonzero "server.http_timeout_ms" server.httpTimeoutMs
  validateNonzero "server.load.max_in_flight" server.load.maxInFlight
  validateNonzero "server.load.max_response_bytes" server.load.maxResponseBytes
  validateNonzero "server.load.shed_retry_after_secs" server.load.shedRetryAfterSecs
  validateNonzero "server.load.body_read_timeout_ms" server.load.bodyReadTimeoutMs
  match parsers.socketAddr server.metricsBind with
  | .error error => invalid s!"server.metrics_bind is not a valid socket address: {error}"
  | .ok _ => .ok ()

def validateUrl (name value : String) : Check :=
  match parsers.urlScheme value with
  | .error error => invalid s!"{name} is not a valid URL: {error}"
  | .ok scheme =>
    if scheme = "http" ∨ scheme = "https" then .ok () else invalid s!"{name} must use http or https"

def validateIntrospection (introspection : IntrospectionConfig) : Check := do
  validateUrl parsers "auth.jwt.introspection.url" introspection.url
  if introspection.clientId = "" ∨ introspection.clientSecret = "" then
    invalid "enabled JWT introspection requires client_id and client_secret"
  else validateNonzero "auth.jwt.introspection.cache_secs" introspection.cacheSecs

def validateJwt (jwt : JwtConfig) : Check := do
  validateUrl parsers "auth.jwt.issuer" jwt.issuer
  if jwt.audience = "" ∨ jwt.clientId = "" then
    invalid "auth.jwt.audience and auth.jwt.client_id must not be empty"
  else do
    validateNonzero "auth.jwt.jwks_refresh_secs" jwt.jwksRefreshSecs
    if jwt.introspection.enabled then validateIntrospection parsers jwt.introspection else .ok ()

def validateToken (pools : FiniteMap String PoolConfig) (token : StaticTokenConfig) : Check :=
  if pools.get token.pool = none then invalid s!"static token references missing pool '{token.pool}'" else .ok ()

def overflow (name : String) : Check := invalid s!"timeouts overflow for pool '{name}'"

def validateTimeouts (server : ServerConfig) (name : String) (pool : PoolConfig) : Check :=
  match checked (pool.commandTimeoutMs * 2) with
  | none => overflow name
  | some commandAndReset =>
    match checked (pool.acquireTimeoutMs + commandAndReset) with
    | none => overflow name
    | some total =>
      if total ≥ server.httpTimeoutMs then
        invalid s!"pool '{name}' requires acquire_timeout_ms + 2 * command_timeout_ms < http_timeout_ms"
      else .ok ()

def validatePool (server : ServerConfig) (name : String) (pool : PoolConfig) : Check := do
  if pool.connectionString = "" then invalid s!"pools.{name}.connection_string must not be empty"
  else do
    validateNonzero s!"pools.{name}.max_connections" pool.maxConnections
    validateNonzero s!"pools.{name}.command_timeout_ms" pool.commandTimeoutMs
    validateNonzero s!"pools.{name}.acquire_timeout_ms" pool.acquireTimeoutMs
    validateNonzero s!"pools.{name}.max_waiters" pool.maxWaiters
    validateNonzero s!"pools.{name}.breaker.failure_threshold" pool.breaker.failureThreshold
    validateNonzero s!"pools.{name}.breaker.cooldown_ms" pool.breaker.cooldownMs
    validateTimeouts server name pool

def Config.validate (config : Config) : Check := do
  validateServer parsers config.server
  match config.auth.jwt with
  | some jwt => validateJwt parsers jwt
  | none => .ok ()
  config.auth.staticTokens.values.forM (validateToken config.pools)
  config.pools.toList.forM fun (name, pool) => validatePool config.server name pool

end Validate

/-- What validation accepts of one pool. The timeout sum is below the HTTP timeout
and representable. -/
structure PoolAdmitted (server : ServerConfig) (pool : PoolConfig) : Prop where
  connectionString : pool.connectionString ≠ ""
  maxConnections : pool.maxConnections ≠ 0
  commandTimeoutMs : pool.commandTimeoutMs ≠ 0
  acquireTimeoutMs : pool.acquireTimeoutMs ≠ 0
  maxWaiters : pool.maxWaiters ≠ 0
  failureThreshold : pool.breaker.failureThreshold ≠ 0
  cooldownMs : pool.breaker.cooldownMs ≠ 0
  sum_lt : pool.acquireTimeoutMs + pool.commandTimeoutMs * 2 < min server.httpTimeoutMs (2 ^ 64)

section Accepts

@[simp] theorem invalid_ne_ok {α : Type} (message : String) (a : α) : invalid message ≠ .ok a := nofun

@[simp] theorem validateNonzero_eq_ok {name : String} {value : Nat} :
    validateNonzero name value = .ok () ↔ value ≠ 0 := by
  rw [validateNonzero, invalid, reject_eq_ok]
  exact and_iff_left rfl

private theorem validateTimeouts_eq_ok {server : ServerConfig} {name : String} {pool : PoolConfig} :
    validateTimeouts server name pool = .ok () ↔
      pool.acquireTimeoutMs + pool.commandTimeoutMs * 2 < min server.httpTimeoutMs (2 ^ 64) := by
  rw [validateTimeouts, lt_min_iff]
  by_cases hm : pool.commandTimeoutMs * 2 < 2 ^ 64
  · by_cases ha : pool.acquireTimeoutMs + pool.commandTimeoutMs * 2 < 2 ^ 64
    · simp only [checked, if_pos hm, if_pos ha, invalid, reject_eq_ok, ge_iff_le, not_le, and_true]
      exact (and_iff_left ha).symm
    · simp only [checked, if_pos hm, if_neg ha, overflow, invalid_ne_ok, false_iff]
      exact fun h => ha h.2
  · simp only [checked, if_neg hm, overflow, invalid_ne_ok, false_iff]
    intro h
    omega

private theorem validatePool_eq_ok {server : ServerConfig} {name : String} {pool : PoolConfig} :
    validatePool server name pool = .ok () ↔ PoolAdmitted server pool := by
  rw [validatePool, invalid, reject_eq_ok]
  simp only [check_then, validateNonzero_eq_ok, validateTimeouts_eq_ok]
  constructor
  · rintro ⟨h1, h2, h3, h4, h5, h6, h7, h8⟩
    exact ⟨h1, h2, h3, h4, h5, h6, h7, h8⟩
  · rintro ⟨h1, h2, h3, h4, h5, h6, h7, h8⟩
    exact ⟨h1, h2, h3, h4, h5, h6, h7, h8⟩

/-- An accepted configuration admits a batch. -/
theorem Config.validate_maxPipelineCommands {parsers : Parsers} {config : Config}
    (h : config.validate parsers = .ok ()) : config.server.maxPipelineCommands ≠ 0 := by
  rw [Config.validate] at h
  have hs := (check_then.mp h).1
  simp only [validateServer, check_then, validateNonzero_eq_ok] at hs
  exact hs.2.2.1

/-- Every pool of an accepted configuration is admitted, in whichever order the
pools are visited. -/
theorem Config.validate_pool {parsers : Parsers} {config : Config} (h : config.validate parsers = .ok ()) {name : String}
    {pool : PoolConfig} (hp : config.pools.get name = some pool) : PoolAdmitted config.server pool := by
  have hpools : config.pools.toList.forM (fun (name, pool) => validatePool config.server name pool) = .ok () := by
    rw [Config.validate] at h
    cases hj : config.auth.jwt with
    | none =>
      rw [hj] at h
      exact (check_then.mp (check_then.mp (check_then.mp h).2).2).2
    | some jwt =>
      rw [hj] at h
      exact (check_then.mp (check_then.mp (check_then.mp h).2).2).2
  exact validatePool_eq_ok.mp (forM_eq_ok.mp hpools (name, pool) (FiniteMap.mem_toList.mpr hp))

/-- Every static token of an accepted configuration names one of its pools. -/
theorem Config.validate_token {parsers : Parsers} {config : Config} (h : config.validate parsers = .ok ()) {digest : Digest}
    {token : StaticTokenConfig} (ht : config.auth.staticTokens.get digest = some token) :
    ∃ pool, config.pools.get token.pool = some pool := by
  have htokens : config.auth.staticTokens.values.forM (validateToken config.pools) = .ok () := by
    rw [Config.validate] at h
    cases hj : config.auth.jwt with
    | none =>
      rw [hj] at h
      exact (check_then.mp (check_then.mp (check_then.mp h).2).2).1
    | some jwt =>
      rw [hj] at h
      exact (check_then.mp (check_then.mp (check_then.mp h).2).2).1
  have hcheck := forM_eq_ok.mp htokens token (FiniteMap.mem_values.mpr ⟨digest, ht⟩)
  rw [validateToken, invalid, reject_eq_ok] at hcheck
  exact Option.ne_none_iff_exists'.mp hcheck.1

end Accepts
end Srh
