import Srh.Domain.Acl
import Srh.Domain.Convert

/-! The request failures of error.rs and the responses they turn into. -/
namespace Srh
open Srh.Domain

inductive AppError where
  | unauthorized
  | forbidden (message : String)
  | badRequest (message : String)
  | redisError (message : String)
  | rateLimited (retryAfterSecs : Nat)
  | authServiceUnavailable
  | overloaded (retryAfterSecs : Nat)
  | poolOpen (retryAfterSecs : Nat) (reason : String)
  | responseTooLarge
  | requestBodyTimeout
  | internal (message : String)
  deriving DecidableEq, Repr

namespace AppError

def ofConversion : Convert.ConversionError → AppError
  | .invalidCommand => badRequest "Invalid command"
  | .responseTooLarge => responseTooLarge

def ofAcl : Acl.AclError → AppError
  | .invalidCommand => badRequest "Invalid command"
  | .forbidden message => forbidden message

/-- The status, the error text and the Retry-After seconds of a failed request. -/
structure Reply where
  status : Nat
  message : String
  retryAfter : Option Nat
  deriving DecidableEq, Repr

def intoResponse : AppError → Reply
  | unauthorized => ⟨401, "Unauthorized", none⟩
  | forbidden message => ⟨403, message, none⟩
  | badRequest message => ⟨400, message, none⟩
  | redisError message => ⟨400, message, none⟩
  | rateLimited retryAfterSecs => ⟨429, "Rate limit exceeded", some retryAfterSecs⟩
  | authServiceUnavailable => ⟨503, "Authentication service unavailable", none⟩
  | overloaded retryAfterSecs => ⟨503, "Server overloaded", some retryAfterSecs⟩
  | poolOpen retryAfterSecs _ => ⟨503, "Backend unavailable", some retryAfterSecs⟩
  | responseTooLarge => ⟨502, "Response too large", none⟩
  | requestBodyTimeout => ⟨408, "Request body timeout", none⟩
  | internal _ => ⟨500, "Internal server error", none⟩

end AppError
end Srh
