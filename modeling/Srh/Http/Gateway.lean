import Srh.Domain.RateLimitRun
import Srh.Http.Extractors
import Srh.Http.Health
import Srh.Http.Observability
import Srh.Http.Plan
import Srh.Lib.Machine

/-! The service of http/mod.rs as one machine. Every request is a task that waits at
an await point of its extractor or its handler, inside the layers of the router; the
tasks share the concurrency limit, the rate limiter and the metrics. -/
namespace Srh.Http.Gateway
open Srh.Lib Srh.Domain Srh.Ports Extractors

inductive Method where
  | get
  | head
  | post
  | other
  deriving DecidableEq, Repr

/-- The head of a request: what the layers and the extractor read of it. -/
structure Inbound where
  path : String
  method : Method
  contentLength : Option Nat
  authorization : Option Bytes
  encodingHeader : Option Bytes
  loopback : Bool

inductive Route where
  | api (endpoint : Endpoint)
  | health
  | ready
  | fallback
  deriving DecidableEq, Repr

def route : String → Route
  | "/" => .api .command
  | "/pipeline" => .api .pipeline
  | "/multi-exec" => .api .multiExec
  | "/health" => .health
  | "/ready" => .ready
  | _ => .fallback

inductive Answer where
  | response (response : Response)
  | failure (error : AppError)
  | healthy
  | readiness (pools : List PoolReadiness)
  | notFound
  | methodNotAllowed
  | payloadTooLarge

namespace Answer

def errorJson (message : String) : Json := .object [("error", .string message)]

def ofResult : Except AppError Response → Answer
  | .ok r => response r
  | .error e => failure e

def status : Answer → Nat
  | response _ => 200
  | failure error => error.intoResponse.status
  | healthy => 200
  | readiness pools => Health.status pools
  | notFound => 404
  | methodNotAllowed => 405
  | payloadTooLarge => 413

/-- The body, where it is JSON; the one of the body limit is not. -/
def body : Answer → Option Json
  | response r => some r.toJson
  | failure error => some (errorJson error.intoResponse.message)
  | healthy => some Health.health
  | readiness pools => some (Health.ready pools)
  | notFound => some (errorJson "Not found")
  | methodNotAllowed => some (errorJson "Method not allowed")
  | payloadTooLarge => none

def retryAfter : Answer → Option Nat
  | failure error => error.intoResponse.retryAfter
  | _ => none

end Answer

/-- What a request does outside of its own computation, with what it is told. -/
inductive Deed where
  | authenticate (bearer : String) (answer : Except AuthError (Option Identity))
  | probe (key : String) (outcome : RateLimit.Outcome)
  | charge (key : String) (commandCount : Nat) (outcome : RateLimit.Outcome)
  | acquire (pool : String) (answer : Except AcquireError Unit)
  | call (operation : Operation)
  | release

def Deed.effect? : Deed → Option Effect
  | charge key commandCount _ => some (.charge key commandCount)
  | acquire pool _ => some (.acquire pool)
  | call operation => some (.call operation)
  | release => some .release
  | authenticate _ _ => none
  | probe _ _ => none

def effects (deeds : List Deed) : List Effect := deeds.filterMap Deed.effect?

inductive Counter where
  | requests (endpoint status : String)
  | authFailures (kind : AuthFailure)
  | rateLimitRejections
  | shedGlobalLimit
  | shedResponseTooLarge
  deriving DecidableEq, Repr

/-- Where a task waits: for the readiness of the pools, for the authenticator, for
its body, for its pool, for its executor. -/
inductive Waiting where
  | checking
  | authenticating (bearer : String)
  | reading (request : Request)
  | acquiring (request : Request) (work : Work)
  | calling (request : Request) (work : Work)

namespace Waiting

/-- The timeout layer is one of the API. -/
def timed : Waiting → Bool
  | checking => false
  | authenticating _ => true
  | reading _ => true
  | acquiring _ _ => true
  | calling _ _ => true

/-- Dropping a handle gives its lease back. -/
def lease : Waiting → List Deed
  | calling _ _ => [.release]
  | _ => []

end Waiting

inductive Phase where
  | waiting (waiting : Waiting)
  | answered (answer : Answer)
  | dropped

namespace Phase

def waiting? : Phase → Option Waiting
  | waiting w => some w
  | answered _ => none
  | dropped => none

end Phase

structure Executor where
  execute : RedisCommand → CommandResult
  pipeline : List RedisCommand → List CommandResult
  transaction : List RedisCommand → BatchResult

inductive Signal where
  | checked (pools : List PoolReadiness)
  | authenticated (now : Nat) (answer : Except AuthError (Option Identity))
  | read (now : Nat) (upload : Upload)
  | acquired (answer : Except AcquireError Unit)
  | called (executor : Executor)
  | elapse
  | abandon

def hear (request : Request) : Signal → Request
  | .read now upload => { request with now := now, upload := upload }
  | .acquired answer => { request with acquired := answer }
  | .called executor =>
    { request with execute := executor.execute, pipeline := executor.pipeline, transaction := executor.transaction }
  | _ => request

def admitted (identity : Identity) (inbound : Inbound) : Request where
  identity := identity
  upload := .slow
  encodingHeader := inbound.encodingHeader
  now := 0
  acquired := .error .overloaded
  execute _ := .error .timeout
  pipeline _ := []
  transaction _ := .error .timeout

/-- What the future of a request owns: a permit of the concurrency limit, inside of the
API, and its part of the in-flight gauge. -/
inductive Guard where
  | permit
  | inFlight
  deriving DecidableEq, Repr

/-- A request with what it has been told and what it has done, oldest first, and with what
it holds. -/
structure Task where
  inbound : Inbound
  phase : Phase
  audit : Audit
  heard : List Signal
  deeds : List Deed
  held : List Guard

abbrev LimiterCall := RateLimit.Timed String × RateLimit.Reply

structure Turn where
  limiter : RateLimit.State String
  phase : Phase
  audit : Audit
  deeds : List Deed := []
  counted : List Counter := []
  calls : List LimiterCall := []
  forgiven : Nat := 0

section Turns
variable (state : AppState)

def overloaded : Answer := .failure (.overloaded state.cfg.server.load.shedRetryAfterSecs)

/-- Below the concurrency limit: the limit of the body by its declared length, the
method, and the header of the extractor. -/
def enterApi (inbound : Inbound) : Phase × List Counter :=
  if inbound.contentLength.any (state.cfg.server.maxBodyBytes < ·) then (.answered .payloadTooLarge, [])
  else if inbound.method ≠ .post then (.answered .methodNotAllowed, [])
  else
    match bearer inbound.authorization with
    | none => (.answered (.failure .unauthorized), [.authFailures .missingOrMalformed])
    | some token => (.waiting (.authenticating token), [])

def enter (available : Nat) (inbound : Inbound) : Phase × List Counter :=
  match route inbound.path with
  | .fallback => (.answered .notFound, [])
  | .health =>
    if inbound.method = .get ∨ inbound.method = .head then (.answered .healthy, []) else (.answered .methodNotAllowed, [])
  | .ready =>
    if inbound.method = .get ∨ inbound.method = .head then
      if inbound.loopback then (.waiting .checking, []) else (.answered .notFound, [])
    else (.answered .methodNotAllowed, [])
  | .api _ => if available = 0 then (.answered (overloaded state), [.shedGlobalLimit]) else enterApi state inbound

def rejections : RateLimit.Outcome → List Counter
  | .ok _ => []
  | .error _ => [.rateLimitRejections]

/-- The two calls of the limiter that belong together: an access, and the publication of
the forgiveness counter. -/
def accessCalls (accessed : RateLimit.Outcome × RateLimit.State String) (call : RateLimit.Timed String) : List LimiterCall :=
  [(call, .outcome accessed.1),
    (⟨call.now, .takeDebtForgivenEvictions⟩, .count (RateLimit.takeDebtForgivenEvictions accessed.2).1)]

def afterAccess (accessed : RateLimit.Outcome × RateLimit.State String) (call : RateLimit.Timed String) (phase : Phase)
    (audit : Audit) (deeds : List Deed) : Turn :=
  let taken := RateLimit.takeDebtForgivenEvictions accessed.2
  { limiter := taken.2, phase := phase, audit := audit, deeds := deeds, counted := rejections accessed.1,
    calls := accessCalls accessed call, forgiven := taken.1 }

/-- The extractor once the authenticator has answered: the identity, and the probe of
its bucket. The handler names the identity to the audit before it waits again. -/
def onAuthenticated (limiter : RateLimit.State String) (task : Task) (token : String) (now : Nat)
    (answer : Except AuthError (Option Identity)) : Turn :=
  match identified answer with
  | .error (error, kind) =>
    { limiter := limiter, phase := .answered (.failure error), audit := task.audit,
      deeds := [.authenticate token answer], counted := [.authFailures kind] }
  | .ok identity =>
    let probed := RateLimit.probe state.rateLimiter limiter now identity.bucketKey
    let deeds := [.authenticate token answer, .probe identity.bucketKey probed.1]
    match probed.1 with
    | .error exceeded =>
      afterAccess probed ⟨now, .probe identity.bucketKey⟩ (.answered (.failure (.rateLimited exceeded.retryAfterSecs)))
        task.audit deeds
    | .ok _ =>
      afterAccess probed ⟨now, .probe identity.bucketKey⟩ (.waiting (.reading (admitted identity task.inbound)))
        (task.audit.setIdentity identity) deeds

def audited (audit : Audit) : Option (String × Nat) → Audit
  | none => audit
  | some (command, pipelineLen) => audit.setCommand (some command) pipelineLen

/-- The handler once its body has arrived, up to its pool. -/
def onRead (limiter : RateLimit.State String) (task : Task) (endpoint : Endpoint) (request : Request) : Turn :=
  match readBody state request with
  | .error error => { limiter := limiter, phase := .answered (.failure error), audit := task.audit }
  | .ok body =>
    let p := plan state request body endpoint
    let accessed := charged state request limiter p.commandCount
    let call : RateLimit.Timed String := ⟨request.now, .charge request.identity.bucketKey p.commandCount⟩
    let audit := audited task.audit p.label
    let deed := .charge request.identity.bucketKey p.commandCount accessed.1
    match accessed.1 with
    | .error exceeded =>
      afterAccess accessed call (.answered (.failure (.rateLimited exceeded.retryAfterSecs))) audit [deed]
    | .ok _ =>
      match p.next with
      | .answer result => afterAccess accessed call (.answered (.ofResult result)) audit [deed]
      | .work work =>
        afterAccess accessed call (.waiting (.acquiring request work)) audit [deed]

def onAcquired (limiter : RateLimit.State String) (task : Task) (request : Request) (work : Work) : Turn :=
  let deed := .acquire request.identity.pool request.acquired
  match request.acquired with
  | .error error =>
    { limiter := limiter, phase := .answered (.failure (mapAcquireError state error)), audit := task.audit,
      deeds := [deed] }
  | .ok _ =>
    { limiter := limiter, phase := .waiting (.calling request work), audit := task.audit,
      deeds := [deed, .call work.operation] }

def onCalled (limiter : RateLimit.State String) (task : Task) (request : Request) (work : Work) : Turn :=
  { limiter := limiter, phase := .answered (.ofResult (work.finish state request)), audit := task.audit,
    deeds := [.release] }

def turn (limiter : RateLimit.State String) (task : Task) : Signal → Waiting → Option Turn
  | .checked pools, .checking => some { limiter := limiter, phase := .answered (.readiness pools), audit := task.audit }
  | .authenticated now answer, .authenticating token => some (onAuthenticated state limiter task token now answer)
  | .read now upload, .reading request =>
    match route task.inbound.path with
    | .api endpoint => some (onRead state limiter task endpoint (hear request (.read now upload)))
    | _ => none
  | .acquired answer, .acquiring request work =>
    some (onAcquired state limiter task (hear request (.acquired answer)) work)
  | .called executor, .calling request work =>
    some (onCalled state limiter task (hear request (.called executor)) work)
  | .elapse, w =>
    if w.timed then
      some { limiter := limiter, phase := .answered (overloaded state), audit := task.audit, deeds := w.lease }
    else none
  | .abandon, w => some { limiter := limiter, phase := .dropped, audit := task.audit, deeds := w.lease }
  | _, _ => none

/-- Everything that an arrival can lead to. -/
inductive Enters (available : Nat) (inbound : Inbound) : Phase → List Counter → Prop where
  | checking (hroute : route inbound.path = .ready) (hlocal : inbound.loopback = true) :
      Enters available inbound (.waiting .checking) []
  | authenticating {endpoint : Endpoint} {token : String} (ha : available ≠ 0) (hroute : route inbound.path = .api endpoint)
      (hb : bearer inbound.authorization = some token) :
      Enters available inbound (.waiting (.authenticating token)) []
  | shed (h : available = 0) : Enters available inbound (.answered (overloaded state)) [.shedGlobalLimit]
  | unauthorized (h : bearer inbound.authorization = none) :
      Enters available inbound (.answered (.failure .unauthorized)) [.authFailures .missingOrMalformed]
  | healthy : Enters available inbound (.answered .healthy) []
  | notFound : Enters available inbound (.answered .notFound) []
  | methodNotAllowed : Enters available inbound (.answered .methodNotAllowed) []
  | payloadTooLarge : Enters available inbound (.answered .payloadTooLarge) []

/-- Everything that a task can do between two await points. -/
inductive Turns (limiter : RateLimit.State String) (task : Task) : Signal → Waiting → Turn → Prop where
  | checked (pools : List PoolReadiness) :
      Turns limiter task (.checked pools) .checking
        { limiter := limiter, phase := .answered (.readiness pools), audit := task.audit }
  | rejected {token : String} {now : Nat} {answer : Except AuthError (Option Identity)} {error : AppError} {kind : AuthFailure}
      (h : identified answer = .error (error, kind)) :
      Turns limiter task (.authenticated now answer) (.authenticating token)
        { limiter := limiter, phase := .answered (.failure error), audit := task.audit,
          deeds := [.authenticate token answer], counted := [.authFailures kind] }
  | limited {token : String} {identity : Identity} {now : Nat} {exceeded : RateLimit.RateLimitExceeded}
      (h : (RateLimit.probe state.rateLimiter limiter now identity.bucketKey).1 = .error exceeded) :
      Turns limiter task (.authenticated now (.ok (some identity))) (.authenticating token)
        (afterAccess (RateLimit.probe state.rateLimiter limiter now identity.bucketKey) ⟨now, .probe identity.bucketKey⟩
          (.answered (.failure (.rateLimited exceeded.retryAfterSecs))) task.audit
          [.authenticate token (.ok (some identity)), .probe identity.bucketKey (.error exceeded)])
  | probed {token : String} {identity : Identity} {now : Nat}
      (h : (RateLimit.probe state.rateLimiter limiter now identity.bucketKey).1 = .ok ()) :
      Turns limiter task (.authenticated now (.ok (some identity))) (.authenticating token)
        (afterAccess (RateLimit.probe state.rateLimiter limiter now identity.bucketKey) ⟨now, .probe identity.bucketKey⟩
          (.waiting (.reading (admitted identity task.inbound))) (task.audit.setIdentity identity)
          [.authenticate token (.ok (some identity)), .probe identity.bucketKey (.ok ())])
  | unread {request : Request} {now : Nat} {upload : Upload} {endpoint : Endpoint} {error : AppError}
      (hroute : route task.inbound.path = .api endpoint)
      (h : readBody state (hear request (.read now upload)) = .error error) :
      Turns limiter task (.read now upload) (.reading request)
        { limiter := limiter, phase := .answered (.failure error), audit := task.audit }
  | overcharged {request received : Request} {now : Nat} {upload : Upload} {endpoint : Endpoint} {body : Bytes} {p : Plan}
      {exceeded : RateLimit.RateLimitExceeded} (hroute : route task.inbound.path = .api endpoint)
      (hreceived : received = hear request (.read now upload)) (hb : readBody state received = .ok body)
      (hp : plan state received body endpoint = p)
      (h : (charged state received limiter p.commandCount).1 = .error exceeded) :
      Turns limiter task (.read now upload) (.reading request)
        (afterAccess (charged state received limiter p.commandCount)
          ⟨received.now, .charge received.identity.bucketKey p.commandCount⟩
          (.answered (.failure (.rateLimited exceeded.retryAfterSecs))) (audited task.audit p.label)
          [.charge received.identity.bucketKey p.commandCount (.error exceeded)])
  | answered {request received : Request} {now : Nat} {upload : Upload} {endpoint : Endpoint} {body : Bytes} {p : Plan}
      {result : Except AppError Response} (hroute : route task.inbound.path = .api endpoint)
      (hreceived : received = hear request (.read now upload)) (hb : readBody state received = .ok body)
      (hp : plan state received body endpoint = p)
      (h : (charged state received limiter p.commandCount).1 = .ok ()) (hnext : p.next = .answer result) :
      Turns limiter task (.read now upload) (.reading request)
        (afterAccess (charged state received limiter p.commandCount)
          ⟨received.now, .charge received.identity.bucketKey p.commandCount⟩
          (.answered (.ofResult result)) (audited task.audit p.label)
          [.charge received.identity.bucketKey p.commandCount (.ok ())])
  | planned {request received : Request} {now : Nat} {upload : Upload} {endpoint : Endpoint} {body : Bytes} {p : Plan}
      {work : Work} (hroute : route task.inbound.path = .api endpoint)
      (hreceived : received = hear request (.read now upload)) (hb : readBody state received = .ok body)
      (hp : plan state received body endpoint = p)
      (h : (charged state received limiter p.commandCount).1 = .ok ()) (hnext : p.next = .work work) :
      Turns limiter task (.read now upload) (.reading request)
        (afterAccess (charged state received limiter p.commandCount)
          ⟨received.now, .charge received.identity.bucketKey p.commandCount⟩
          (.waiting (.acquiring received work)) (audited task.audit p.label)
          [.charge received.identity.bucketKey p.commandCount (.ok ())])
  | unleased {request : Request} {work : Work} (error : AcquireError) :
      Turns limiter task (.acquired (.error error)) (.acquiring request work)
        { limiter := limiter, phase := .answered (.failure (mapAcquireError state error)), audit := task.audit,
          deeds := [.acquire request.identity.pool (.error error)] }
  | leased {request : Request} {work : Work} :
      Turns limiter task (.acquired (.ok ())) (.acquiring request work)
        { limiter := limiter, phase := .waiting (.calling (hear request (.acquired (.ok ()))) work), audit := task.audit,
          deeds := [.acquire request.identity.pool (.ok ()), .call work.operation] }
  | finished {request : Request} {work : Work} (executor : Executor) :
      Turns limiter task (.called executor) (.calling request work)
        { limiter := limiter, audit := task.audit, deeds := [.release],
          phase := .answered (.ofResult (work.finish state (hear request (.called executor)))) }
  | elapsed {w : Waiting} (h : w.timed = true) :
      Turns limiter task .elapse w
        { limiter := limiter, phase := .answered (overloaded state), audit := task.audit, deeds := w.lease }
  | abandoned (w : Waiting) :
      Turns limiter task .abandon w { limiter := limiter, phase := .dropped, audit := task.audit, deeds := w.lease }

variable {state} {limiter : RateLimit.State String} {task : Task}

theorem enters_enter (state : AppState) (available : Nat) (inbound : Inbound) :
    Enters state available inbound (enter state available inbound).1 (enter state available inbound).2 := by
  rw [enter]
  split
  · exact .notFound
  · split
    · exact .healthy
    · exact .methodNotAllowed
  · rename_i hroute
    split
    · split
      · rename_i hlocal
        exact .checking hroute hlocal
      · exact .notFound
    · exact .methodNotAllowed
  · rename_i endpoint hroute
    by_cases ha : available = 0
    · rw [if_pos ha]
      exact .shed ha
    · rw [if_neg ha, enterApi]
      split
      · exact .payloadTooLarge
      · split
        · exact .methodNotAllowed
        · split
          · exact .unauthorized (by assumption)
          · exact .authenticating ha hroute (by assumption)

private theorem turns_onAuthenticated (token : String) (now : Nat) (answer : Except AuthError (Option Identity)) :
    Turns state limiter task (.authenticated now answer) (.authenticating token)
      (onAuthenticated state limiter task token now answer) := by
  rw [onAuthenticated]
  cases hi : identified answer with
  | error refusal => exact .rejected hi
  | ok identity =>
    obtain rfl := identified_eq_ok.mp hi
    dsimp only
    cases hp : (RateLimit.probe state.rateLimiter limiter now identity.bucketKey).1 with
    | error exceeded => exact .limited hp
    | ok u => exact .probed hp

private theorem turns_onRead {endpoint : Endpoint} (hroute : route task.inbound.path = .api endpoint) (request : Request)
    (now : Nat) (upload : Upload) :
    Turns state limiter task (.read now upload) (.reading request)
      (onRead state limiter task endpoint (hear request (.read now upload))) := by
  generalize hreceived : hear request (.read now upload) = received
  rw [onRead]
  cases hb : readBody state received with
  | error error =>
    subst hreceived
    exact .unread hroute hb
  | ok body =>
    dsimp only
    cases hc : (charged state received limiter (plan state received body endpoint).commandCount).1 with
    | error exceeded => exact .overcharged hroute hreceived.symm hb rfl hc
    | ok u =>
      dsimp only
      cases hn : (plan state received body endpoint).next with
      | answer result => exact .answered hroute hreceived.symm hb rfl hc hn
      | work work => exact .planned hroute hreceived.symm hb rfl hc hn

private theorem turns_onAcquired (request : Request) (work : Work) (answer : Except AcquireError Unit) :
    Turns state limiter task (.acquired answer) (.acquiring request work)
      (onAcquired state limiter task (hear request (.acquired answer)) work) := by
  rw [onAcquired]
  cases answer with
  | error error => exact .unleased error
  | ok u => exact .leased

theorem turns_of_turn {signal : Signal} {w : Waiting} {t : Turn} (h : turn state limiter task signal w = some t) :
    Turns state limiter task signal w t := by
  revert h
  fun_cases turn
  case case1 pools => rintro ⟨⟩; exact .checked pools
  case case2 now answer token => rintro ⟨⟩; exact turns_onAuthenticated token now answer
  case case3 now upload request endpoint hroute => rintro ⟨⟩; exact turns_onRead hroute request now upload
  case case5 answer request work => rintro ⟨⟩; exact turns_onAcquired request work answer
  case case6 executor request work => rintro ⟨⟩; exact .finished executor
  case case7 hp => rintro ⟨⟩; exact .elapsed hp
  case case9 => rintro ⟨⟩; exact .abandoned _
  all_goals rintro ⟨⟩

end Turns

def conversionCounters : Answer → List Counter
  | .failure .responseTooLarge => [.shedResponseTooLarge]
  | _ => []

def answerCounters (path : String) (answer : Answer) : List Counter :=
  conversionCounters answer ++ [.requests (endpointLabel path) (statusLabel answer.status)]

def Phase.counters (path : String) : Phase → List Counter
  | answered a => answerCounters path a
  | _ => []

/-- A call of the limiter and the task that makes it; the maintenance is no task. -/
abbrev Owned := Option Nat × LimiterCall

def timed (calls : List Owned) : List (RateLimit.Timed String) := calls.map fun c => c.2.1

structure Occupancy where
  available : Nat
  inFlight : Int

/-- The semaphore of the limit hands out a permit; InFlight::enter. -/
def Occupancy.take (occupancy : Occupancy) : Guard → Occupancy
  | .permit => { occupancy with available := occupancy.available - 1 }
  | .inFlight => { occupancy with inFlight := occupancy.inFlight + 1 }

def Occupancy.drop (occupancy : Occupancy) : Guard → Occupancy
  | .permit => { occupancy with available := occupancy.available + 1 }
  | .inFlight => { occupancy with inFlight := occupancy.inFlight - 1 }

/-- What a request is given on its way in. The limit is asked for the API only, and a
request that it sheds has no permit. -/
def taken (available : Nat) (inbound : Inbound) : List Guard :=
  match route inbound.path with
  | .api _ => if available = 0 then [.inFlight] else [.permit, .inFlight]
  | _ => [.inFlight]

namespace Phase

/-- A future that waits is kept with all that it holds; it is dropped once it is ready, or
when its client is gone. -/
def keeps (phase : Phase) (held : List Guard) : List Guard := if phase.waiting?.isSome then held else []

def drops (phase : Phase) (held : List Guard) : List Guard := if phase.waiting?.isSome then [] else held

end Phase

def Task.turned (task : Task) (signal : Signal) (t : Turn) : Task where
  inbound := task.inbound
  phase := t.phase
  audit := t.audit
  heard := task.heard ++ [signal]
  deeds := task.deeds ++ t.deeds
  held := t.phase.keeps task.held

structure State extends Occupancy where
  limiter : RateLimit.State String
  tasks : List Task
  counted : List Counter
  calls : List Owned
  debtForgiven : Nat

def State.new (maxInFlight : Nat) : State where
  available := maxInFlight
  inFlight := 0
  limiter := .empty
  tasks := []
  counted := []
  calls := []
  debtForgiven := 0

inductive Event where
  | arrive (inbound : Inbound)
  | signal (task : Nat) (signal : Signal)
  | sweep (now : Nat)

namespace State
variable (state : AppState) (s : State)

/-- A request enters the layers; one that is answered at once is dropped at once. -/
def arrive (inbound : Inbound) : State :=
  let entered := enter state s.available inbound
  let held := taken s.available inbound
  { s with
    toOccupancy := (entered.1.drops held).foldl Occupancy.drop (held.foldl Occupancy.take s.toOccupancy)
    tasks := s.tasks ++ [⟨inbound, entered.1, .default, [], [], entered.1.keeps held⟩]
    counted := s.counted ++ entered.2 ++ entered.1.counters inbound.path }

def withTurn (i : Nat) (task : Task) (signal : Signal) (t : Turn) : State where
  toOccupancy := (t.phase.drops task.held).foldl Occupancy.drop s.toOccupancy
  limiter := t.limiter
  tasks := s.tasks.set i (task.turned signal t)
  counted := s.counted ++ t.counted ++ t.phase.counters task.inbound.path
  calls := s.calls ++ t.calls.map fun call => (some i, call)
  debtForgiven := s.debtForgiven + t.forgiven

def sweep (now : Nat) : State :=
  let swept := RateLimit.sweepIdle state.rateLimiter s.limiter now
  { s with limiter := swept.2, calls := s.calls ++ [(none, ⟨now, .sweepIdle⟩, .count swept.1)] }

end State

def step (state : AppState) (s : State) : Event → Option State
  | .arrive inbound => some (s.arrive state inbound)
  | .signal i signal => do
    let task ← s.tasks[i]?
    let w ← task.phase.waiting?
    let t ← turn state s.limiter task signal w
    some (s.withTurn i task signal t)
  | .sweep now => some (s.sweep state now)

def machine (state : AppState) : Machine State Event := ⟨step state⟩

def start (state : AppState) : State := .new state.cfg.server.load.maxInFlight

end Srh.Http.Gateway
