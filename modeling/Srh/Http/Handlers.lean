import Srh.Domain.RateLimit
import Srh.Error
import Srh.Http.Parse

/-! The three command handlers, http/command.rs, http/pipeline.rs and
http/multi_exec.rs. A handler is a program over the rate limiter that records what
it asks of the outside; the answers are those of a given request. -/
namespace Srh.Http
open Srh.Lib Srh.Domain Srh.Ports

/-- The shared dependencies, with SHA-256 and the reading of a body as JSON. -/
structure AppState where
  cfg : Config
  rateLimiter : RateLimit.RateLimiter
  sha256 : Bytes → Digest
  present : Bytes → Parse.Document

inductive Upload where
  | slow
  | broken
  | complete (bytes : Bytes)
  deriving DecidableEq, Repr

/-- One authenticated request: its identity, its body, its upstash-encoding header,
the clock, and what its pool and its executor answer. -/
structure Request where
  identity : Identity
  upload : Upload
  encodingHeader : Option Bytes
  now : Nat
  acquired : Except AcquireError Unit
  execute : RedisCommand → CommandResult
  pipeline : List RedisCommand → List CommandResult
  transaction : List RedisCommand → BatchResult

/-- What a handler does outside of its own computation, in order. -/
inductive Effect where
  | charge (key : String) (commandCount : Nat)
  | acquire (pool : String)
  | call (operation : Operation)
  | release
  | respond
  deriving DecidableEq, Repr

structure World where
  limiter : RateLimit.State String
  trace : List Effect

def World.log (w : World) (effects : List Effect) : World := { w with trace := w.trace ++ effects }

abbrev Handler := EStateM AppError World

def exec {α : Type} (program : Handler α) (w : World) : Except AppError α × World :=
  match program w with
  | .ok a after => (.ok a, after)
  | .error e after => (.error e, after)

inductive Slot where
  | result (value : RespValue) (encoding : Convert.Encoding)
  | error (message : String)

def Slot.toJson : Slot → Json
  | result value encoding => .object [("result", Convert.responseJson encoding value)]
  | error message => .object [("error", .string message)]

inductive Response where
  | envelope (value : RespValue) (encoding : Convert.Encoding)
  | slots (entries : List Slot)

def Response.toJson : Response → Json
  | envelope value encoding => .object [("result", Convert.responseJson encoding value)]
  | slots entries => .array (entries.map Slot.toJson)

def emit (effect : Effect) : Handler Unit := modify fun w => w.log [effect]

def lift {α : Type} : Except AppError α → Handler α
  | .ok a => pure a
  | .error e => throw e

/-- Header values that are not visible ASCII have no text. -/
def isVisible (b : UInt8) : Bool := b = 9 ∨ (32 ≤ b ∧ b < 127)

def responseEncoding (header : Option Bytes) : Convert.Encoding :=
  match header with
  | some value =>
    if value.all isVisible ∧ Ascii.eqIgnoreCase value (Ascii.bytes "base64") then .base64 else .none
  | none => .none

section Handlers
variable (state : AppState) (request : Request)

def readBody : Except AppError Bytes :=
  match request.upload with
  | .slow => .error .requestBodyTimeout
  | .broken => .error (.badRequest "Invalid command")
  | .complete bytes =>
    if bytes.length ≤ state.cfg.server.maxBodyBytes then .ok bytes else .error (.badRequest "Invalid command")

/-- Charges the identity's bucket and drains the forgiveness counter. -/
def chargeRateLimit (commandCount : Nat) : Handler Unit := do
  let w ← get
  let (outcome, limiter) := RateLimit.charge state.rateLimiter w.limiter request.now request.identity.bucketKey commandCount
  set { w with limiter := (RateLimit.takeDebtForgivenEvictions limiter).2 }
  emit (.charge request.identity.bucketKey commandCount)
  lift (outcome.mapError fun exceeded => .rateLimited exceeded.retryAfterSecs)

def mapExecError : ExecError → AppError
  | .redis message => .redisError message
  | .responseTooLarge => .responseTooLarge
  | .timeout => .poolOpen state.cfg.server.load.shedRetryAfterSecs "Redis command timed out"
  | .transport reason => .poolOpen state.cfg.server.load.shedRetryAfterSecs reason

def mapAcquireError : AcquireError → AppError
  | .unknownPool pool => .internal s!"identity referenced unknown Redis pool '{pool}'"
  | .overloaded => .overloaded state.cfg.server.load.shedRetryAfterSecs
  | .poolOpen retryAfterSecs => .poolOpen retryAfterSecs "circuit breaker cooldown active"
  | .internal message => .internal message

def acquire : Handler Unit := do
  emit (.acquire request.identity.pool)
  lift (request.acquired.mapError (mapAcquireError state))

/-- The consuming methods of ExecutorHandle: the lease is dropped before the result
is returned. -/
def callAndRelease {α : Type} (operation : Operation) (result : α) : Handler α := do
  emit (.call operation)
  emit .release
  pure result

def check (command : RedisCommand) : Except Acl.AclError Unit :=
  Acl.check state.sha256 request.identity command

def encoding : Convert.Encoding := responseEncoding request.encodingHeader

def chargeResponseBudget (value : RespValue) (budget : Nat) : Except AppError Nat :=
  (Convert.chargeResponseBudget value (encoding request) budget).mapError .ofConversion

/-- Json(..).into_response(), which a handler does for a success only: a failure is
made a response once the handler has returned it. -/
def intoResponse (response : Response) : Handler Response := do
  emit .respond
  pure response

def commandParseError : Parse.ParseError → AppError
  | .requestTooComplex => .badRequest "Request too complex"
  | .invalid => .badRequest "Invalid command"
  | .pipelineTooLarge => .badRequest "Invalid command"

def command : Handler Response := do
  let body ← lift (readBody state request)
  match Parse.command (state.present body) state.cfg.server.maxRequestElements with
  | .error error =>
    chargeRateLimit state request 1
    throw (commandParseError error)
  | .ok command =>
    chargeRateLimit state request 1
    lift ((check state request command).mapError .ofAcl)
    let command := Compat.normalize command
    acquire state request
    let result ← callAndRelease (.execute command) (request.execute command)
    let value ← lift (result.mapError (mapExecError state))
    let _ ← lift (chargeResponseBudget request value state.cfg.server.load.maxResponseBytes)
    intoResponse (.envelope value (encoding request))

def batchParseError : Parse.ParseError → AppError
  | .invalid => .badRequest "Invalid command"
  | .pipelineTooLarge => .badRequest "Pipeline too large"
  | .requestTooComplex => .badRequest "Request too complex"

def parseBatch (body : Bytes) : Except Parse.ParseError (List RedisCommand) :=
  Parse.pipeline (state.present body) state.cfg.server.maxPipelineCommands state.cfg.server.maxRequestElements

def renderResult (budget : Nat) : CommandResult → Except AppError (Slot × Nat)
  | .ok value => do
    let budget ← chargeResponseBudget request value budget
    .ok (.result value (encoding request), budget)
  | .error (.redis message) => .ok (.error message, budget)
  | .error .responseTooLarge => .error .responseTooLarge
  | .error .timeout => .ok (.error "Redis command timed out", budget)
  | .error (.transport _) => .ok (.error "Internal server error", budget)

/-- Splits a pipeline into the normalised commands that may run and one entry for
each command, filled in where it is denied. -/
def sift : List RedisCommand → Except AppError (List RedisCommand × List (Option Slot))
  | [] => .ok ([], [])
  | command :: commands =>
    match check state request command with
    | .ok _ => do
      let (allowed, slots) ← sift commands
      .ok (Compat.normalize command :: allowed, none :: slots)
    | .error (.forbidden message) => do
      let (allowed, slots) ← sift commands
      .ok (allowed, some (.error message) :: slots)
    | .error error => .error (.ofAcl error)

def fill : Nat → List (Option Slot) → List CommandResult → Except AppError (List Slot)
  | _, [], [] => .ok []
  | _, [], _ :: _ => .error (.internal "pipeline executor returned too many results")
  | budget, some denied :: slots, results => do
    let response ← fill budget slots results
    .ok (denied :: response)
  | _, none :: _, [] => .error (.internal "pipeline executor returned too few results")
  | budget, none :: slots, result :: results => do
    let (slot, budget) ← renderResult request budget result
    let response ← fill budget slots results
    .ok (slot :: response)

/-- The results of the commands that may run; without any, nothing is acquired. -/
def runAllowed (allowed : List RedisCommand) : Handler (List CommandResult) :=
  if allowed.isEmpty then pure []
  else do
    acquire state request
    callAndRelease (.pipeline allowed) (request.pipeline allowed)

def runPipeline (commands : List RedisCommand) : Handler Response := do
  let (allowed, slots) ← lift (sift state request commands)
  if commands.length = 0 then intoResponse (.slots [])
  else
    let results ← runAllowed state request allowed
    let response ← lift (fill request state.cfg.server.load.maxResponseBytes slots results)
    intoResponse (.slots response)

def pipeline : Handler Response := do
  let body ← lift (readBody state request)
  match parseBatch state body with
  | .error error =>
    chargeRateLimit state request 1
    throw (batchParseError error)
  | .ok commands =>
    chargeRateLimit state request commands.length
    runPipeline state request commands

def renderResults : Nat → List CommandResult → Except AppError (List Slot)
  | _, [] => .ok []
  | budget, result :: results => do
    let (slot, budget) ← renderResult request budget result
    let response ← renderResults budget results
    .ok (slot :: response)

def multiExec : Handler Response := do
  let body ← lift (readBody state request)
  match parseBatch state body with
  | .error error =>
    chargeRateLimit state request 1
    throw (batchParseError error)
  | .ok commands =>
    if commands = [] then
      chargeRateLimit state request 1
      throw (.badRequest "Invalid command")
    else
      chargeRateLimit state request commands.length
      lift ((commands.forM (check state request)).mapError .ofAcl)
      let commands := commands.map Compat.normalize
      acquire state request
      let results ← callAndRelease (.transaction commands) (request.transaction commands)
      let results ← lift (results.mapError (mapExecError state))
      let response ← lift (renderResults request state.cfg.server.load.maxResponseBytes results)
      intoResponse (.slots response)

end Handlers

inductive Endpoint where
  | command
  | pipeline
  | multiExec
  deriving DecidableEq, Repr

def handler (state : AppState) (request : Request) : Endpoint → Handler Response
  | .command => command state request
  | .pipeline => pipeline state request
  | .multiExec => multiExec state request

/-- What becomes of the end of a handler: an error is made a response. -/
def conclude (ended : Except AppError Response × World) : Except AppError Response × World :=
  match ended with
  | (.ok response, w) => (.ok response, w)
  | (.error e, w) => (.error e, w.log [.respond])

/-- A request from the end of its authentication to its response. -/
def serve (state : AppState) (request : Request) (endpoint : Endpoint) (limiter : RateLimit.State String) :
    Except AppError Response × World :=
  conclude (exec (handler state request endpoint) ⟨limiter, []⟩)

section Exec
variable {α β : Type} (w : World) (f : α → Handler β)

@[simp] theorem exec_pure_bind (a : α) : exec (pure a >>= f) w = exec (f a) w := rfl

@[simp] theorem exec_lift_ok (a : α) : exec (lift (.ok a) >>= f) w = exec (f a) w := rfl

@[simp] theorem exec_lift_error (e : AppError) : exec (lift (.error e : Except AppError α) >>= f) w = (.error e, w) := rfl

@[simp] theorem conclude_fst (ended : Except AppError Response × World) : (conclude ended).1 = ended.1 := by
  obtain ⟨result, w⟩ := ended
  cases result <;> rfl

/-- A handler that ends with what it has renders it and is done. -/
@[simp] theorem conclude_lift_respond (x : Except AppError α) (g : α → Response) :
    conclude (exec (lift x >>= fun a => intoResponse (g a)) w) = (x.map g, w.log [.respond]) := by
  cases x <;> rfl

private theorem exec_get_bind (k : World → Handler β) : exec (get >>= k) w = exec (k w) w := rfl

@[simp] theorem log_log (effects more : List Effect) : (w.log effects).log more = w.log (effects ++ more) := by
  simp only [World.log, List.append_assoc]

@[simp] theorem exec_callAndRelease (operation : Operation) (result : α) :
    exec (callAndRelease operation result >>= f) w = exec (f result) (w.log [.call operation, .release]) := by
  have h : exec (callAndRelease operation result >>= f) w = exec (f result) ((w.log [.call operation]).log [.release]) :=
    rfl
  rw [h, log_log, List.cons_append, List.nil_append]

variable (state : AppState) (request : Request) (g : Unit → Handler β)

/-- The limiter's answer to a charge of the request's bucket. -/
def charged (limiter : RateLimit.State String) (commandCount : Nat) : RateLimit.Outcome × RateLimit.State String :=
  RateLimit.charge state.rateLimiter limiter request.now request.identity.bucketKey commandCount

def World.charge (commandCount : Nat) : World :=
  ⟨(RateLimit.takeDebtForgivenEvictions (charged state request w.limiter commandCount).2).2,
    w.trace ++ [.charge request.identity.bucketKey commandCount]⟩

theorem exec_charge (commandCount : Nat) :
    exec (chargeRateLimit state request commandCount >>= g) w =
      exec (lift ((charged state request w.limiter commandCount).1.mapError fun exceeded =>
        .rateLimited exceeded.retryAfterSecs) >>= g) (w.charge state request commandCount) := by
  rw [chargeRateLimit, bind_assoc, exec_get_bind, World.charge, charged]
  generalize RateLimit.charge state.rateLimiter w.limiter request.now request.identity.bucketKey commandCount = answer
  rfl

theorem exec_charge_ok {commandCount : Nat} (h : (charged state request w.limiter commandCount).1 = .ok ()) :
    exec (chargeRateLimit state request commandCount >>= g) w = exec (g ()) (w.charge state request commandCount) := by
  rw [exec_charge, h]
  rfl

theorem exec_charge_error {commandCount : Nat} {exceeded : RateLimit.RateLimitExceeded}
    (h : (charged state request w.limiter commandCount).1 = .error exceeded) :
    exec (chargeRateLimit state request commandCount >>= g) w =
      (.error (.rateLimited exceeded.retryAfterSecs), w.charge state request commandCount) := by
  rw [exec_charge, h]
  rfl

theorem exec_acquire_ok (h : request.acquired = .ok ()) :
    exec (acquire state request >>= g) w = exec (g ()) (w.log [.acquire request.identity.pool]) := by
  rw [acquire, h]
  rfl

theorem exec_acquire_error {e : AcquireError} (h : request.acquired = .error e) :
    exec (acquire state request >>= g) w =
      (.error (mapAcquireError state e), w.log [.acquire request.identity.pool]) := by
  rw [acquire, h]
  rfl

theorem runAllowed_nil : runAllowed state request [] = pure [] := rfl

theorem runAllowed_of_ne {allowed : List RedisCommand} (h : allowed ≠ []) :
    runAllowed state request allowed =
      (acquire state request >>= fun _ => callAndRelease (.pipeline allowed) (request.pipeline allowed)) := by
  rw [runAllowed, if_neg (by simpa using h)]

def Renders (program : Handler Response) : Prop := ∀ w, (conclude (exec program w)).2 = w.log [.respond]

theorem renders_intoResponse (response : Response) : Renders (intoResponse response) := fun _ => rfl

theorem renders_lift_bind {x : Except AppError α} {f : α → Handler Response} (h : ∀ a, Renders (f a)) : Renders (lift x >>= f) := by
  intro w
  cases x with
  | ok a => exact h a w
  | error e => rfl

end Exec

end Srh.Http
