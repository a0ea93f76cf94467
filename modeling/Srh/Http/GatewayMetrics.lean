import Srh.Http.Failures
import Srh.Http.GatewayLimits

/-! The metrics of the service against its answers. Every counter is raised where the
source raises it; what is proved is that the totals are those of the answers. -/
namespace Srh.Http
open Srh.Lib Srh.Domain Srh.Ports

namespace Gateway
open Extractors

def Answer.Quiet : Answer → Prop
  | failure error => Handled False error
  | _ => True

/-- What is counted before an answer is given. -/
inductive Counts : Answer → List Counter → Prop where
  | limited (retryAfterSecs : Nat) : Counts (.failure (.rateLimited retryAfterSecs)) [.rateLimitRejections]
  | unauthorized {kind : AuthFailure} (h : kind = .missingOrMalformed ∨ kind = .rejected) :
      Counts (.failure .unauthorized) [.authFailures kind]
  | forbidden (message : String) : Counts (.failure (.forbidden message)) [.authFailures .forbidden]
  | unavailable : Counts (.failure .authServiceUnavailable) [.authFailures .unavailable]
  | shed (retryAfterSecs : Nat) : Counts (.failure (.overloaded retryAfterSecs)) [.shedGlobalLimit]
  | quiet {answer : Answer} (h : answer.Quiet) : Counts answer []

def Phase.Counts : Phase → List Counter → Prop
  | answered a, counted => Gateway.Counts a counted
  | waiting _, counted => counted = []
  | dropped, counted => counted = []

section Turn
variable {state : AppState} {limiter : RateLimit.State String} {task : Task} {signal : Signal} {w : Waiting} {t : Turn}

end Turn

section Total
variable {f : Counter → Nat} {g : String → Answer → Nat}

variable (h : ∀ path answer counted, Counts answer counted → tally f (counted ++ answerCounters path answer) = g path answer)
include h

end Total

def State.answers (s : State) : List (String × Answer) :=
  s.tasks.filterMap fun task =>
    match task.phase with
    | .answered answer => some (task.inbound.path, answer)
    | _ => none

end Gateway
end Srh.Http
