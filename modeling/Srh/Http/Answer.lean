import Srh.Http.Admission

/-! What the three endpoints answer. A single command takes one course from its charge
to its response; a batch renders what it gathered against one budget. -/
namespace Srh.Http
open Srh.Lib Srh.Domain Srh.Ports

section Course
variable (state : AppState) (request : Request) (limiter : RateLimit.State String) (command : RedisCommand)

def course (denied : String → Except AppError Response) (operation : Operation) (rendered : Except AppError Response) :
    Except AppError Response × World :=
  let after := World.charge ⟨limiter, []⟩ state request 1
  match (charged state request limiter 1).1 with
  | .error exceeded => (.error (.rateLimited exceeded.retryAfterSecs), after.log [.respond])
  | .ok _ =>
    match check state request command with
    | .error (.forbidden message) => (denied message, after.log [.respond])
    | .error .invalidCommand => (.error (.badRequest "Invalid command"), after.log [.respond])
    | .ok _ =>
      match request.acquired with
      | .error e => (.error (mapAcquireError state e), after.log [.acquire request.identity.pool, .respond])
      | .ok _ => (rendered, after.log [.acquire request.identity.pool, .call operation, .release, .respond])

def renderEnvelope (result : CommandResult) : Except AppError Response := do
  let value ← result.mapError (mapExecError state)
  let _ ← chargeResponseBudget request value state.cfg.server.load.maxResponseBytes
  .ok (.envelope value (encoding request))

variable {state request limiter command} {body : Bytes}

/-- A handler that refuses what the policy denies takes the course. -/
theorem serve_course {endpoint : Endpoint} {α : Type} (operation : Operation) (result : α) {finish : α → Handler Response}
    {rendered : Except AppError Response}
    (h : exec (handler state request endpoint) ⟨limiter, []⟩ =
      exec (do
        chargeRateLimit state request 1
        lift ((check state request command).mapError .ofAcl)
        acquire state request
        let result ← callAndRelease operation result
        finish result) ⟨limiter, []⟩)
    (hf : ∀ w, conclude (exec (finish result) w) = (rendered, w.log [.respond])) :
    serve state request endpoint limiter =
      course state request limiter command (fun message => .error (.forbidden message)) operation rendered := by
  rw [serve, h, course]
  cases hc : (charged state request limiter 1).1 with
  | error exceeded => rw [exec_charge_error _ _ _ _ hc, conclude]
  | ok u =>
    rw [exec_charge_ok _ _ _ _ hc]
    cases check state request command with
    | error e => cases e <;> rfl
    | ok u =>
      have hpassed : (Except.ok u : Except Acl.AclError Unit).mapError AppError.ofAcl = .ok u := rfl
      rw [hpassed, exec_lift_ok]
      cases ha : request.acquired with
      | error e => rw [exec_acquire_error _ _ _ _ ha, conclude, log_log]; rfl
      | ok u => rw [exec_acquire_ok _ _ _ _ ha, exec_callAndRelease, hf, log_log, log_log]; rfl

theorem serve_command_course (hb : readBody state request = .ok body)
    (hp : Parse.command (state.present body) state.cfg.server.maxRequestElements = .ok command) :
    serve state request .command limiter =
      course state request limiter command (fun message => .error (.forbidden message))
        (.execute (Compat.normalize command)) (renderEnvelope state request (request.execute (Compat.normalize command))) := by
  refine serve_course (.execute (Compat.normalize command)) (request.execute (Compat.normalize command))
    (by rw [handler, Http.command, hb, exec_lift_ok, hp]) fun w => ?_
  rw [renderEnvelope]
  cases (request.execute (Compat.normalize command)).mapError (mapExecError state) with
  | error e => rfl
  | ok value =>
    rw [exec_lift_ok, conclude_lift_respond]
    change (_, w.log [.respond]) = (chargeResponseBudget request value state.cfg.server.load.maxResponseBytes >>= _, w.log [.respond])
    cases chargeResponseBudget request value state.cfg.server.load.maxResponseBytes <;> rfl

private theorem course_ok {denied : String → Except AppError Response} {operation : Operation} {rendered : Except AppError Response}
    {response : Response} (hd : ∀ message, denied message ≠ .ok response)
    (h : (course state request limiter command denied operation rendered).1 = .ok response) : rendered = .ok response := by
  rw [course] at h
  split at h
  · cases h
  · split at h
    · exact absurd h (hd _)
    · cases h
    · split at h
      · cases h
      · exact h

end Course

section Answers
variable (state : AppState) (request : Request) (limiter : RateLimit.State String)

def chargeCheck (commandCount : Nat) : Except AppError Unit :=
  (charged state request limiter commandCount).1.mapError fun exceeded => .rateLimited exceeded.retryAfterSecs

def leased : Except AppError Unit := request.acquired.mapError (mapAcquireError state)

/-- What a pipeline has when it begins to render: the entries that are open or
denied, and the executor's results. -/
def gatherPipeline (commands : List RedisCommand) : Except AppError (List (Option Slot) × List CommandResult) := do
  chargeCheck state request limiter commands.length
  let (allowed, slots) ← sift state request commands
  if allowed.isEmpty then .ok (slots, [])
  else
    leased state request
    .ok (slots, request.pipeline allowed)

def gatherTransaction (commands : List RedisCommand) : Except AppError (List (Option Slot) × List CommandResult) :=
  if commands = [] then do
    chargeCheck state request limiter 1
    .error (.badRequest "Invalid command")
  else do
    chargeCheck state request limiter commands.length
    (commands.forM (check state request)).mapError .ofAcl
    leased state request
    let results ← (request.transaction (commands.map Compat.normalize)).mapError (mapExecError state)
    .ok (results.map fun _ => none, results)

inductive Batch where
  | pipeline
  | multiExec
  deriving DecidableEq, Repr

def Batch.endpoint : Batch → Endpoint
  | pipeline => .pipeline
  | multiExec => .multiExec

def gather (batch : Batch) : Except AppError (List (Option Slot) × List CommandResult) := do
  let body ← readBody state request
  match parseBatch state body with
  | .error error => do
    chargeCheck state request limiter 1
    .error (batchParseError error)
  | .ok commands =>
    match batch with
    | .pipeline => gatherPipeline state request limiter commands
    | .multiExec => gatherTransaction state request limiter commands

end Answers

section Effects
variable {α β : Type} {state : AppState} {request : Request} {limiter : RateLimit.State String} {commands : List RedisCommand}
  (w : World)

private theorem fst_lift_bind (x : Except AppError α) (f : α → Handler β) :
    (exec (lift x >>= f) w).1 = x >>= fun a => (exec (f a) w).1 := by
  cases x <;> rfl

private theorem fst_lift_respond (x : Except AppError α) (g : α → Response) :
    (exec (lift x >>= fun a => intoResponse (g a)) w).1 = x.map g := by
  cases x <;> rfl

private theorem fst_charge_bind (commandCount : Nat) (g : Unit → Handler β) :
    (exec (chargeRateLimit state request commandCount >>= g) w).1 =
      chargeCheck state request w.limiter commandCount >>= fun u => (exec (g u) (w.charge state request commandCount)).1 := by
  rw [exec_charge, fst_lift_bind, chargeCheck]

private theorem fst_acquire_bind (g : Unit → Handler β) :
    (exec (acquire state request >>= g) w).1 =
      leased state request >>= fun u => (exec (g u) (w.log [.acquire request.identity.pool])).1 := by
  rw [leased]
  cases h : request.acquired with
  | ok u => rw [exec_acquire_ok w state request g h]; rfl
  | error e => rw [exec_acquire_error w state request g h]; rfl

/-- A body that is rejected is charged all the same. -/
theorem fst_rejected (e : AppError) :
    (exec (chargeRateLimit state request 1 >>= fun _ => (throw e : Handler β)) w).1 =
      chargeCheck state request w.limiter 1 >>= fun _ => .error e :=
  fst_charge_bind w 1 fun _ => throw e

/-- The entries of a transaction are those of a pipeline without denials. -/
theorem renderResults_eq_fill (budget : Nat) (results : List CommandResult) :
    renderResults request budget results = fill request budget (results.map fun _ => none) results := by
  induction results generalizing budget with
  | nil => rfl
  | cons result results ih =>
    rw [renderResults, List.map_cons, fill]
    cases renderResult request budget result with
    | error e => rfl
    | ok rendered =>
      change (renderResults request rendered.2 results >>= _) = (fill request rendered.2 _ results >>= _)
      rw [ih]

private theorem fst_runPipeline :
    (chargeCheck state request limiter commands.length >>= fun _ => (exec (runPipeline state request commands) w).1) =
      gatherPipeline state request limiter commands >>= fun gathered =>
        (fill request state.cfg.server.load.maxResponseBytes gathered.1 gathered.2).map .slots := by
  rw [gatherPipeline, bind_assoc]
  refine bind_congr fun _ => ?_
  rw [runPipeline, fst_lift_bind, bind_assoc]
  cases hs : sift state request commands with
  | error e => rfl
  | ok sifted =>
    obtain ⟨allowed, slots⟩ := sifted
    -- An empty pipeline returns before it has anything to fill.
    by_cases hc : commands.length = 0
    · obtain rfl := List.length_eq_zero_iff.mp hc
      cases hs
      rfl
    · change (exec (if commands.length = 0 then _ else _) w).1 = (if allowed.isEmpty then _ else _) >>= _
      rw [if_neg hc, runAllowed]
      by_cases ha : allowed.isEmpty
      · rw [if_pos ha, if_pos ha, exec_pure_bind, fst_lift_respond]
        rfl
      · rw [if_neg ha, if_neg ha, bind_assoc, fst_acquire_bind, bind_assoc]
        refine bind_congr fun _ => ?_
        rw [exec_callAndRelease, fst_lift_respond]
        rfl

end Effects

section Serve
variable (state : AppState) (request : Request) (limiter : RateLimit.State String)

/-- A single command is answered with a value only where one was parsed and called. -/
theorem serve_command_ok {response : Response} (h : (serve state request .command limiter).1 = .ok response) :
    ∃ command, renderEnvelope state request (request.execute (Compat.normalize command)) = .ok response := by
  cases hb : readBody state request with
  | error e =>
    rw [serve, handler, Http.command, hb, exec_lift_error] at h
    cases h
  | ok body =>
    cases hp : Parse.command (state.present body) state.cfg.server.maxRequestElements with
    | error e =>
      rw [serve, handler, Http.command, hb, exec_lift_ok, hp] at h
      dsimp only at h
      rw [conclude_fst, fst_rejected] at h
      obtain ⟨u, -, h⟩ := bind_eq_ok.mp h
      cases h
    | ok command =>
      rw [serve_command_course hb hp] at h
      refine ⟨command, course_ok ?_ h⟩
      intro message hd
      cases hd

/-- A batch renders what it gathered against one budget. -/
theorem serve_batch (batch : Batch) :
    (serve state request batch.endpoint limiter).1 =
      gather state request limiter batch >>= fun gathered =>
        (fill request state.cfg.server.load.maxResponseBytes gathered.1 gathered.2).map .slots := by
  rw [serve, conclude_fst, gather, bind_assoc]
  cases batch with
  | pipeline =>
    change (exec (pipeline state request) ⟨limiter, []⟩).1 = _
    rw [pipeline, fst_lift_bind]
    refine bind_congr fun body => ?_
    cases parseBatch state body with
    | error e =>
      dsimp only
      rw [fst_rejected, bind_assoc]
      rfl
    | ok commands =>
      dsimp only
      rw [fst_charge_bind]
      exact fst_runPipeline _
  | multiExec =>
    change (exec (multiExec state request) ⟨limiter, []⟩).1 = _
    rw [multiExec, fst_lift_bind]
    refine bind_congr fun body => ?_
    cases parseBatch state body with
    | error e =>
      dsimp only
      rw [fst_rejected, bind_assoc]
      rfl
    | ok commands =>
      dsimp only
      rw [gatherTransaction]
      by_cases hc : commands = []
      · rw [if_pos hc, if_pos hc, fst_rejected, bind_assoc]
        rfl
      · rw [if_neg hc, if_neg hc, fst_charge_bind, bind_assoc]
        refine bind_congr fun _ => ?_
        rw [fst_lift_bind, bind_assoc]
        refine bind_congr fun _ => ?_
        rw [fst_acquire_bind, bind_assoc]
        refine bind_congr fun _ => ?_
        rw [exec_callAndRelease, fst_lift_bind, bind_assoc]
        refine bind_congr fun results => ?_
        rw [fst_lift_respond, renderResults_eq_fill]
        rfl

end Serve
end Srh.Http
