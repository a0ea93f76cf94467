import Srh.ConfigFormat

/-! The configuration as the process finds it: the variables of its environment, and the
file that they name. -/
namespace Srh
open Srh.Lib Srh.Domain

inductive LoadError where
  | read (path source : String)
  | missingEnvironment (name : String)
  | invalidEnvironment (name reason : String)
  | file (error : FileError)
  deriving DecidableEq, Repr

/-- The variables, and what reading a file gives: an error, or the JSON value of its text
if it has one. -/
structure Environment where
  get : String → Option String
  read : String → Except String (Option Json)

section Variables

def parseDigits (limit value : Nat) : List Char → Except String Nat
  | [] => .ok value
  | c :: digits =>
    if !c.isDigit then .error "invalid digit found in string"
    else if limit ≤ value * 10 + (c.toNat - '0'.toNat) then .error "number too large to fit in target type"
    else parseDigits limit (value * 10 + (c.toNat - '0'.toNat)) digits

/-- The parser of the standard library for unsigned numbers of so many bits. -/
def parseUnsigned (bits : Nat) (text : String) : Except String Nat :=
  match text.toList with
  | [] => .error "cannot parse integer from empty string"
  | ['+'] => .error "invalid digit found in string"
  | '+' :: digits => parseDigits (2 ^ bits) 0 digits
  | digits => parseDigits (2 ^ bits) 0 digits

variable (env : Environment)

def Environment.required (name : String) : Except LoadError String :=
  match env.get name with
  | some value => .ok value
  | none => .error (.missingEnvironment name)

def Environment.parseEnv (bits : Nat) (name : String) : Except LoadError (Option Nat) :=
  match env.get name with
  | none => .ok none
  | some value => ((parseUnsigned bits value).map some).mapError (.invalidEnvironment name)

def Environment.parseBoolEnv (name : String) : Except LoadError (Option Bool) :=
  match env.get name with
  | none => .ok none
  | some "true" => .ok (some true)
  | some "1" => .ok (some true)
  | some "false" => .ok (some false)
  | some "0" => .ok (some false)
  | some _ => .error (.invalidEnvironment name "expected true, false, 1, or 0")

end Variables

section Load
variable (sha256 : Bytes → Digest) (parsers : Parsers) (iteration : Iteration) (env : Environment)

def defaultConfigPath : String := "./srh-config/tokens.json"

def Config.loadEnvMode : Except LoadError Config := do
  let token ← env.required "SRH_TOKEN"
  let connectionString ← env.required "SRH_CONNECTION_STRING"
  let maxConnections ← env.parseEnv 64 "SRH_MAX_CONNECTIONS"
  .ok (.fromEnvMode (digestToken sha256 token) connectionString maxConnections)

def Config.fromPath (path : String) : Except LoadError Config :=
  match env.read path with
  | .error source => .error (.read path source)
  | .ok none => .error (.file .json)
  | .ok (some value) => (Config.fromJson sha256 parsers iteration value).mapError .file

def ipv6Bind (bind : String) : String := if bind = "0.0.0.0" then "::" else "::1"

def ServerConfig.applyOverrides (server : ServerConfig) : Except LoadError ServerConfig := do
  let bind := (env.get "SRH_BIND").getD server.bind
  let port ← env.parseEnv 16 "SRH_PORT"
  let ipv6 ← env.parseBoolEnv "SRH_IPV6"
  .ok { server with bind := if ipv6.getD false then ipv6Bind bind else bind, port := port.getD server.port }

def Config.ofMode : Except LoadError Config :=
  match (env.get "SRH_MODE").getD "file" with
  | "env" => Config.loadEnvMode sha256 env
  | "file" => Config.fromPath sha256 parsers iteration env ((env.get "SRH_CONFIG_PATH").getD defaultConfigPath)
  | _ => .error (.invalidEnvironment "SRH_MODE" "expected \x60file\x60 or \x60env\x60")

def Config.fromEnvironment : Except LoadError Config := do
  let config ← Config.ofMode sha256 parsers iteration env
  let server ← config.server.applyOverrides env
  let config := { config with server := server }
  (config.validate parsers).mapError fun error => .file (.invalid error)
  .ok config

end Load

section Accepted
variable {sha256 : Bytes → Digest} {parsers : Parsers} {iteration : Iteration} {env : Environment} {config : Config}

/-- Environment mode takes its only credential and its only pool from two variables. -/
theorem fromEnvironment_env (hmode : env.get "SRH_MODE" = some "env")
    (h : Config.fromEnvironment sha256 parsers iteration env = .ok config) :
    ∃ secret connectionString maxConnections, env.get "SRH_TOKEN" = some secret ∧
      env.get "SRH_CONNECTION_STRING" = some connectionString ∧ config.validate parsers = .ok () ∧
      config.auth = (Config.fromEnvMode (digestToken sha256 secret) connectionString maxConnections).auth ∧
      config.pools = (Config.fromEnvMode (digestToken sha256 secret) connectionString maxConnections).pools := by
  obtain ⟨read, hread, h⟩ := bind_eq_ok.mp h
  obtain ⟨server, -, h⟩ := bind_eq_ok.mp h
  obtain ⟨hvalid, h⟩ := check_then.mp h
  cases h
  rw [Config.ofMode, hmode] at hread
  obtain ⟨secret, hsecret, hread⟩ := bind_eq_ok.mp hread
  obtain ⟨connectionString, hconnection, hread⟩ := bind_eq_ok.mp hread
  obtain ⟨maxConnections, -, hread⟩ := bind_eq_ok.mp hread
  cases hread
  have hgiven {name value : String} (hr : env.required name = .ok value) : env.get name = some value := by
    rw [Environment.required] at hr
    split at hr
    · rename_i given hget
      cases hr
      exact hget
    · cases hr
  exact ⟨secret, connectionString, maxConnections, hgiven hsecret, hgiven hconnection, mapError_eq_ok.mp hvalid, rfl, rfl⟩

end Accepted
end Srh
