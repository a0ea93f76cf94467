import Srh.Config
import Srh.Domain.Convert
import Srh.Lib.Guards
import Srh.Lib.Serde

/-! Requests to the identity provider, as adapters/outbound_http.rs makes them: one
request within five seconds, no redirects, and a body up to a limit. -/
namespace Srh.Adapters.OutboundHttp
open Srh.Lib Srh.Domain

inductive Method where
  | get
  | post
  deriving DecidableEq, Repr

structure HttpRequest where
  method : Method
  uri : String
  contentType : Option String
  authorization : Option String
  body : Bytes
  deriving DecidableEq, Repr

inductive Frame where
  | data (bytes : Bytes)
  | trailers
  | failed (message : String)
  deriving DecidableEq, Repr

structure HttpResponse where
  status : Nat
  frames : List Frame
  deriving DecidableEq, Repr

/-- What comes of a request: nothing within the time, an error of the client, or a
response. -/
inductive Exchange where
  | late
  | failed (message : String)
  | answered (response : HttpResponse)
  deriving DecidableEq, Repr

/-- What the clients leave to others: the parsers of URLs and of request URIs, the names of
the status codes, serde_json with its complaint of a body that it cannot read, the body
that is collected within a limit, and the form of one pair. -/
structure Foreign extends Parsers where
  uri : String → Except String Unit
  canonicalReason : Nat → Option String
  parseJson : Bytes → Option Json
  complaint : Bytes → String
  collect : Nat → List Frame → Except String Bytes
  appendPair : String → String → Bytes

def Foreign.fromSlice {α : Type} (foreign : Foreign) (reader : Serde.Reader α) (body : Bytes) : Except String α :=
  match (foreign.parseJson body).bind reader with
  | some value => .ok value
  | none => .error (foreign.complaint body)

section Requests
variable (foreign : Foreign)

def requireSuccess (status : Nat) : Except String Unit :=
  if 200 ≤ status ∧ status < 300 then .ok ()
  else
    let reason :=
      if 300 ≤ status ∧ status < 400 then "redirects are not followed"
      else if status = 429 then "remote service rate limited the request"
      else "remote service returned an error"
    .error (reason ++ ": HTTP " ++ toString status ++ " " ++ (foreign.canonicalReason status).getD "<unknown status code>")

def requestBytes (maxResponseBytes : Nat) : Exchange → Except String Bytes
  | .late => .error "outbound HTTP request timed out"
  | .failed message => .error ("outbound HTTP request failed: " ++ message)
  | .answered response => do
    requireSuccess foreign response.status
    (foreign.collect maxResponseBytes response.frames).mapError ("outbound HTTP response body failed: " ++ ·)

end Requests

def Frame.bytes : Frame → Bytes
  | data bytes => bytes
  | trailers => []
  | failed _ => []

/-- The frames are those of a whole body, however it is cut. -/
def Complete (frames : List Frame) (body : Bytes) : Prop :=
  (∀ message, .failed message ∉ frames) ∧ frames.flatMap Frame.bytes = body

/-- What is collected of a body is the whole body, and no longer than the limit. -/
def Foreign.Limits (foreign : Foreign) : Prop :=
  ∀ limit frames body, foreign.collect limit frames = .ok body → Complete frames body ∧ body.length ≤ limit

/-- A body is taken only from a success, whole and within the limit. -/
def Delivers (exchange : Exchange) (limit : Nat) (body : Bytes) : Prop :=
  ∃ response, exchange = .answered response ∧ 200 ≤ response.status ∧ response.status < 300 ∧ Complete response.frames body ∧
    body.length ≤ limit

end Srh.Adapters.OutboundHttp
