import Srh.Config
import Srh.Domain.Convert
import Srh.Domain.Identity
import Srh.Lib.Dialogue

/-! The JWT authenticator of adapters/jwt_auth.rs. It is a dialogue with the key
source, the introspection service and the introspection cache. What it takes from
jsonwebtoken, serde_json and SHA-256 are parameters. -/
namespace Srh.Adapters
open Srh.Lib Srh.Domain

namespace Jwt

def clockSkewSecs : Nat := 30

inductive Audience where
  | one (value : String)
  | many (values : List String)
  | missing
  deriving DecidableEq, Repr

def Audience.contains (expected : String) : Audience → Bool
  | one value => value = expected
  | many values => expected ∈ values
  | missing => false

structure ClientAccess where
  roles : List String
  deriving DecidableEq, Repr

structure Claims where
  sub : String
  aud : Audience
  azp : Option String
  typ : String
  resourceAccess : FiniteMap String ClientAccess
  srhPool : Option String
  srhBlockedCommands : List String
  srhKeyPrefix : Option String

structure Header where
  kid : Option String
  deriving DecidableEq, Repr

/-- What decode verifies besides the signature. -/
structure Validation where
  algorithm : JwtAlgorithm
  leeway : Nat
  validateNbf : Bool
  validateAud : Bool
  issuer : List String
  requiredSpecClaims : List String
  deriving DecidableEq, Repr

/-- The libraries: header decoding, the key that a JWK describes, signature and
claim validation, JSON parsing and SHA-256. -/
structure Library (Key : Type) where
  decodeHeader : String → Option Header
  decodingKey : Bytes → Option Key
  decode : String → Key → Validation → Option Claims
  parseJson : Bytes → Option Json
  sha256 : Bytes → Digest

inductive Question where
  | keyFor (kid : String)
  | cacheGet (digest : Digest)
  | isActive (bearer : String)
  | cacheInsert (digest : Digest) (active : Bool)
  deriving DecidableEq, Repr

def Question.Answer : Question → Type
  | keyFor _ => Except JwksError CachedKey
  | cacheGet _ => Option Bool
  | isActive _ => Except IntrospectError Bool
  | cacheInsert _ _ => Unit

end Jwt

open Jwt

abbrev Authenticating (ρ : Type) := Dialogue Question Question.Answer (Except AuthError ρ)

/-- An authenticator; no identity means that it does not recognize the credential. -/
abbrev Authenticator := String → Authenticating (Option Identity)

structure JwtAuth where
  config : JwtConfig
  pools : String → Option (Finset String)
  introspector : Bool

namespace JwtAuth

def new (config : JwtConfig) (pools : FiniteMap String PoolConfig) (introspector : Bool) : JwtAuth where
  config := config
  pools name := (pools.get name).map PoolConfig.allowedScriptSha256
  introspector := introspector

variable (auth : JwtAuth)

def roles (claims : Claims) : List String :=
  ((claims.resourceAccess.get auth.config.clientId).map ClientAccess.roles).getD []

def role (claims : Claims) (name : String) : Bool := auth.config.rolePrefix ++ name ∈ auth.roles claims

/-- Read-only and admin, by the strongest role. -/
def privileges (claims : Claims) : Except AuthError (Bool × Bool) :=
  if auth.role claims "admin" then .ok (false, true)
  else if auth.role claims "write" then .ok (false, false)
  else if auth.role claims "read" then .ok (true, false)
  else .error (.forbidden "NOPERM no redis role")

def identity (claims : Claims) : Except AuthError Identity := do
  let (readOnly, isAdmin) ← auth.privileges claims
  let pool := claims.srhPool.getD "default"
  match auth.pools pool with
  | none => .error (.forbidden "NOPERM invalid redis pool")
  | some allowedScriptSha256 => .ok {
      subject := claims.sub
      bucketKey := claims.sub
      pool := pool
      readOnly := readOnly
      isAdmin := isAdmin
      legacy := false
      allowedCommands := none
      blockedCommands := (claims.srhBlockedCommands.map Ascii.toUppercase).toFinset
      allowedScriptSha256 := allowedScriptSha256
      keyPrefix := claims.srhKeyPrefix }

/-- The audience is checked apart, since it may stand in azp. -/
def validation (algorithm : JwtAlgorithm) : Validation where
  algorithm := algorithm
  leeway := clockSkewSecs
  validateNbf := true
  validateAud := false
  issuer := [auth.config.issuer]
  requiredSpecClaims := ["exp", "iss", "sub"]

section Validate
variable {Key : Type} (library : Library Key) (bearer : String)

def verify (cached : CachedKey) : Except AuthError Claims :=
  match library.decodingKey cached.material with
  | none => .error .rejected
  | some key =>
    match library.decode bearer key (auth.validation cached.algorithm) with
    | none => .error .rejected
    | some claims =>
      if claims.typ ≠ "Bearer" ∨
          (claims.aud.contains auth.config.audience = false ∧ claims.azp ≠ some auth.config.audience) then
        .error .rejected
      else .ok claims

def digest : Digest := library.sha256 (Convert.utf8Bytes bearer)

/-- Whether the token is active: from the cache, or from the service and into the
cache. -/
def active {ρ : Type} (next : Bool → Authenticating ρ) : Authenticating ρ :=
  .ask (.cacheGet (digest library bearer)) fun
    | some active => next active
    | none => .ask (.isActive bearer) fun
      | .error error => .done (.error (.serviceUnavailable error.message))
      | .ok active => .ask (.cacheInsert (digest library bearer) active) fun _ => next active

def conclude (claims : Claims) : Authenticating Identity :=
  if auth.introspector then
    active library bearer fun active => .done (if active then auth.identity claims else .error .rejected)
  else .done (auth.identity claims)

def ofJwks : JwksError → AuthError
  | .notFound => .rejected
  | .unavailable reason => .serviceUnavailable reason

def validate : Authenticating Identity :=
  match library.decodeHeader bearer with
  | none => .done (.error .rejected)
  | some header =>
    match header.kid with
    | none => .done (.error .rejected)
    | some kid => .ask (.keyFor kid) fun
      | .error error => .done (.error (ofJwks error))
      | .ok cached =>
        match auth.verify library bearer cached with
        | .error error => .done (.error error)
        | .ok claims => auth.conclude library bearer claims

end Validate

section Authenticate
variable {Key : Type} (library : Library Key)

def dots (bearer : String) : Nat := (Convert.utf8Bytes bearer).count 46

def headerSegment (bearer : String) : Option String :=
  if '.' ∈ bearer.toList then some (String.ofList (bearer.toList.takeWhile (· ≠ '.'))) else none

def hasJsonHeader (bearer : String) : Bool :=
  match ((headerSegment bearer).bind Base64.decodeUrl).bind library.parseJson with
  | some (.object _) => true
  | _ => false

def authenticate : Authenticator := fun bearer =>
  if dots bearer ≠ 2 then .done (.ok none)
  else match library.decodeHeader bearer with
    | none => .done (if hasJsonHeader library bearer then .error .rejected else .ok none)
    | some _ => (auth.validate library bearer).bind fun result => .done (result.map some)

end Authenticate

def sampleConfig : JwtConfig := ⟨"https://issuer.test", "srh", 600, "redis:", "srh", ⟨false, "", "", "", 30⟩⟩

def sampleClaims (roles blocked : List String) : Claims :=
  ⟨"user", .one "srh", none, "Bearer", FiniteMap.empty.insert "srh" ⟨roles⟩, none, blocked, none⟩

end JwtAuth
end Srh.Adapters
