import Srh.Adapters.OutboundHttp
import Srh.Domain.Identity
import Srh.Lib.Base64

/-! The introspection client of adapters/http_introspect.rs: what it asks, and what it
makes of the answer. -/
namespace Srh.Adapters.HttpIntrospect
open Srh.Lib Srh.Domain OutboundHttp

def introspectionLimit : Nat := 64 * 1024

structure HttpIntrospector where
  url : String
  authorization : String
  deriving DecidableEq, Repr

/-- Other members of the answer are not looked at. -/
def introspectionResponse : Serde.Reader Bool := fun value => do
  let given ← Serde.fields ["active"] false value
  Serde.required given "active" Serde.bool

namespace HttpIntrospector
variable (foreign : Foreign)

/-- The client may fail to find its trust roots. -/
def new (client : Except String Unit) (url clientId clientSecret : String) : Except IntrospectError HttpIntrospector := do
  let scheme ← (foreign.urlScheme url).mapError fun error => ⟨"invalid introspection URL: " ++ error⟩
  if scheme ≠ "http" ∧ scheme ≠ "https" then throw ⟨"introspection URL must use http or https"⟩
  let credentials := clientId ++ ":" ++ clientSecret
  let authorization := "Basic " ++ Base64.encode (Convert.utf8Bytes credentials)
  client.mapError IntrospectError.mk
  pure ⟨url, authorization⟩

def request (self : HttpIntrospector) (token : String) : Except IntrospectError HttpRequest := do
  let body := foreign.appendPair "token" token
  (foreign.uri self.url).mapError fun error => ⟨"invalid introspection request: " ++ error⟩
  pure ⟨.post, self.url, some "application/x-www-form-urlencoded", some self.authorization, body⟩

/-- What is_active makes of the exchange. -/
def isActive (self : HttpIntrospector) (token : String) (exchange : Exchange) : Except IntrospectError Bool := do
  let _ ← self.request foreign token
  let response ← (requestBytes foreign introspectionLimit exchange).mapError IntrospectError.mk
  (foreign.fromSlice introspectionResponse response).mapError fun error => ⟨"invalid introspection response: " ++ error⟩

end HttpIntrospector

section Answers
variable {foreign : Foreign} {self : HttpIntrospector} {token : String}

end Answers
end Srh.Adapters.HttpIntrospect
