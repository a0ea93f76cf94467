import Mathlib.Data.List.Basic

/-! The transport-independent values and failures of domain/resp.rs. -/
namespace Srh.Domain

abbrev Bytes := List UInt8

inductive RespValue where
  | simple (value : String)
  | bulk (value : Bytes)
  | int (value : Int)
  | nil
  | array (items : List RespValue)
  deriving Repr

inductive ExecError where
  | transport (message : String)
  | timeout
  | redis (message : String)
  | responseTooLarge
  deriving DecidableEq, Repr

inductive AcquireError where
  | unknownPool (pool : String)
  | overloaded
  | poolOpen (retryAfterSecs : Nat)
  | internal (message : String)
  deriving DecidableEq, Repr

def ExecError.message : ExecError → String
  | .transport message => message
  | .redis message => message
  | .timeout => "Redis command timed out"
  | .responseTooLarge => "Redis response is too large"

def AcquireError.message : AcquireError → String
  | .unknownPool pool => s!"unknown Redis pool '{pool}'"
  | .overloaded => "Redis pool is overloaded"
  | .poolOpen _ => "Redis backend is unavailable"
  | .internal message => message

end Srh.Domain
