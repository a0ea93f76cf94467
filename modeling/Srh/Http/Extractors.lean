import Srh.Http.Handlers

/-! The extractor of http/extractors.rs: the credential of an Authorization header, and
what the answer of the authenticator makes of a request. -/
namespace Srh.Http.Extractors
open Srh.Lib Srh.Domain

inductive AuthFailure where
  | missingOrMalformed
  | rejected
  | forbidden
  | unavailable
  deriving DecidableEq, Repr

def splitOnce : Bytes → Option (Bytes × Bytes)
  | [] => none
  | b :: rest => if b = 32 then some ([], rest) else (splitOnce rest).map fun parts => (b :: parts.1, parts.2)

def text (bytes : Bytes) : String := String.ofList (bytes.map fun b => Char.ofNat b.toNat)

/-- The credential of an Authorization header, unless the header is missing or
malformed. -/
def bearer (authorization : Option Bytes) : Option String :=
  match authorization with
  | none => none
  | some value =>
    if value.all isVisible then
      match splitOnce value with
      | none => none
      | some (scheme, token) =>
        if Ascii.eqIgnoreCase scheme (Ascii.bytes "Bearer") = false ∨ token = [] then none else some (text token)
    else none

/-- The identity, or the failure and the kind it is counted under. -/
def identified : Except AuthError (Option Identity) → Except (AppError × AuthFailure) Identity
  | .error .rejected => .error (.unauthorized, .rejected)
  | .error (.forbidden reason) => .error (.forbidden reason, .forbidden)
  | .error (.serviceUnavailable _) => .error (.authServiceUnavailable, .unavailable)
  | .ok none => .error (.unauthorized, .rejected)
  | .ok (some identity) => .ok identity

theorem identified_eq_ok {answer : Except AuthError (Option Identity)} {identity : Identity} :
    identified answer = .ok identity ↔ answer = .ok (some identity) := by
  constructor
  · intro h
    rcases answer with (_ | _ | _) | (_ | found)
    case ok.some => cases h; rfl
    all_goals cases h
  · rintro rfl
    rfl

example : bearer (some (Ascii.bytes "bearer a b")) = some "a b" := by decide

end Srh.Http.Extractors
