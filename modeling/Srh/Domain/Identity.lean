import Mathlib.Data.Finset.Insert
import Srh.Domain.Resp

/-! The authenticated identity and the credential failures of domain/identity.rs. -/
namespace Srh.Domain

structure Identity where
  subject : String
  bucketKey : String
  pool : String
  readOnly : Bool
  isAdmin : Bool
  legacy : Bool
  allowedCommands : Option (Finset String)
  blockedCommands : Finset String
  allowedScriptSha256 : Finset String
  keyPrefix : Option String
  deriving DecidableEq

inductive JwtAlgorithm where
  | rs256
  | rs384
  | rs512
  | es256
  | es384
  deriving DecidableEq, Repr

structure CachedKey where
  algorithm : JwtAlgorithm
  material : Bytes
  deriving DecidableEq, Repr

/-- A definitive failure or an outage. A credential that is not recognized is no
error. -/
inductive AuthError where
  | rejected
  | forbidden (message : String)
  | serviceUnavailable (reason : String)
  deriving DecidableEq, Repr

inductive JwksError where
  | notFound
  | unavailable (reason : String)
  deriving DecidableEq, Repr

structure IntrospectError where
  message : String
  deriving DecidableEq, Repr

end Srh.Domain
