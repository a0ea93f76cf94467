import Srh.Domain.ResponseBudget
import Srh.Http.Answer
import Srh.Http.Attribution
import Srh.Http.Grammar

/-! One command on each of the three endpoints. They take one course, and differ in
how they answer a denial, in the operation they call and in how they render. -/
namespace Srh.Http
open Srh.Lib Srh.Domain Srh.Ports

section Entry
variable (state : AppState) (request : Request)

def renderEntry (result : CommandResult) : Except AppError Response := do
  let (slot, _) ← renderResult request state.cfg.server.load.maxResponseBytes result
  .ok (.slots [slot])

variable {state request} {limiter : RateLimit.State String} {command : RedisCommand} {body : Bytes}

private theorem forM_singleton (f : RedisCommand → Except Acl.AclError Unit) : [command].forM f = f command := by
  rw [List.forM_eq_forM, List.forM_cons]
  cases f command <;> rfl

private theorem serve_multiExec_course {result : CommandResult} (hb : readBody state request = .ok body)
    (hp : parseBatch state body = .ok [command]) (ht : request.transaction [Compat.normalize command] = .ok [result]) :
    serve state request .multiExec limiter =
      course state request limiter command (fun message => .error (.forbidden message))
        (.transaction [Compat.normalize command]) (renderEntry state request result) := by
  have hprogram : exec (handler state request .multiExec) ⟨limiter, []⟩ =
      exec (do
        chargeRateLimit state request 1
        lift ((check state request command).mapError .ofAcl)
        acquire state request
        let results ← callAndRelease (.transaction [Compat.normalize command]) (request.transaction [Compat.normalize command])
        let results ← lift (results.mapError (mapExecError state))
        let response ← lift (renderResults request state.cfg.server.load.maxResponseBytes results)
        intoResponse (.slots response)) ⟨limiter, []⟩ := by
    rw [handler, multiExec, hb, exec_lift_ok, hp]
    dsimp only
    rw [if_neg (List.cons_ne_nil _ _), forM_singleton]
    rfl
  refine serve_course (.transaction [Compat.normalize command]) (request.transaction [Compat.normalize command]) hprogram
    fun w => ?_
  rw [ht, renderEntry]
  have hresults : (Except.ok [result] : BatchResult).mapError (mapExecError state) = .ok [result] := rfl
  rw [hresults, exec_lift_ok, conclude_lift_respond, renderResults]
  cases renderResult request state.cfg.server.load.maxResponseBytes result <;> rfl

/-- Filling the one open entry is rendering it. -/
theorem fill_one (result : CommandResult) :
    (fill request state.cfg.server.load.maxResponseBytes [none] [result]).map Response.slots = renderEntry state request result := by
  rw [fill, renderEntry]
  cases renderResult request state.cfg.server.load.maxResponseBytes result <;> rfl

private theorem serve_pipeline_course {result : CommandResult} (hb : readBody state request = .ok body)
    (hp : parseBatch state body = .ok [command]) (hn : command.name ≠ "")
    (hr : request.pipeline [Compat.normalize command] = [result]) :
    serve state request .pipeline limiter =
      course state request limiter command (fun message => .ok (.slots [.error message]))
        (.pipeline [Compat.normalize command]) (renderEntry state request result) := by
  have hnames : ∀ c ∈ [command], c.name ≠ "" := fun c hc => List.mem_singleton.mp hc ▸ hn
  have hone : ([command] : List RedisCommand).length = 1 := rfl
  rw [course]
  cases hc : (charged state request limiter 1).1 with
  | error exceeded => rw [serve_pipeline_limited hb hp hc, hone]
  | ok u =>
    rw [serve_pipeline hb hp hc, hone]
    cases hk : check state request command with
    | error e =>
      have hallowed : allowed state request [command] = [] := by
        rw [allowed, List.filter_singleton, passes, hk]
        rfl
      rw [conclude_runPipeline_denied _ hnames hallowed, List.map_singleton, denial, hk]
      cases e with
      | forbidden message => rfl
      | invalidCommand => exact absurd (check_invalid.mp hk) hn
    | ok u =>
      have hallowed : allowed state request [command] = [Compat.normalize command] := by
        rw [allowed, List.filter_singleton, passes, hk]
        rfl
      have hsome : allowed state request [command] ≠ [] := hallowed ▸ List.cons_ne_nil _ _
      cases ha : request.acquired with
      | error e => rw [conclude_runPipeline_refused _ hnames hsome ha]
      | ok u =>
        have hdenial : denial state request command = none := by rw [denial, hk]
        rw [conclude_runPipeline_called _ hnames hsome ha, hallowed, hr, List.map_singleton, hdenial, fill_one]

end Entry

section Agreement

def World.charges (w : World) : List (String × Nat) :=
  w.trace.filterMap fun
    | .charge key commandCount => some (key, commandCount)
    | _ => none

section Course
variable {state : AppState} {request : Request} {limiter : RateLimit.State String} {command : RedisCommand}
  (denied : String → Except AppError Response) (operation : Operation) (rendered : Except AppError Response)

private theorem course_charges :
    (course state request limiter command denied operation rendered).2.limiter = afterCharge state request limiter 1 ∧
      (course state request limiter command denied operation rendered).2.charges = [(request.identity.bucketKey, 1)] := by
  rw [course]
  cases (charged state request limiter 1).1 with
  | error exceeded => exact ⟨rfl, rfl⟩
  | ok u =>
    cases check state request command with
    | error e => cases e <;> exact ⟨rfl, rfl⟩
    | ok u => cases request.acquired <;> exact ⟨rfl, rfl⟩

private theorem course_acquires :
    (∃ pool, .acquire pool ∈ (course state request limiter command denied operation rendered).2.trace) ↔
      (charged state request limiter 1).1 = .ok () ∧ check state request command = .ok () := by
  rw [course]
  cases (charged state request limiter 1).1 with
  | error exceeded => simp [World.charge, World.log]
  | ok u =>
    cases check state request command with
    | error e => cases e <;> simp [World.charge, World.log]
    | ok u => cases request.acquired <;> simp [World.charge, World.log]

private theorem course_limited {exceeded : RateLimit.RateLimitExceeded} (h : (charged state request limiter 1).1 = .error exceeded) :
    (course state request limiter command denied operation rendered).1 = .error (.rateLimited exceeded.retryAfterSecs) := by
  rw [course, h]

private theorem course_denied {message : String} (hc : (charged state request limiter 1).1 = .ok ())
    (hk : check state request command = .error (.forbidden message)) :
    (course state request limiter command denied operation rendered).1 = denied message := by
  rw [course, hc, hk]

private theorem course_refused {e : AcquireError} (hc : (charged state request limiter 1).1 = .ok ())
    (hk : check state request command = .ok ()) (ha : request.acquired = .error e) :
    (course state request limiter command denied operation rendered).1 = .error (mapAcquireError state e) := by
  rw [course, hc, hk, ha]

private theorem course_called (hc : (charged state request limiter 1).1 = .ok ()) (hk : check state request command = .ok ())
    (ha : request.acquired = .ok ()) :
    (course state request limiter command denied operation rendered).1 = rendered := by
  rw [course, hc, hk, ha]

end Course

/-- The command reaches Redis: it is within the rate, allowed, and gets a lease. -/
def Called (state : AppState) (request : Request) (limiter : RateLimit.State String) (command : RedisCommand) : Prop :=
  (charged state request limiter 1).1 = .ok () ∧ check state request command = .ok () ∧ request.acquired = .ok ()

/-- One command with one result, as the three endpoints serve it. -/
structure Agree (state : AppState) (request : Request) (limiter : RateLimit.State String) (command : RedisCommand)
    (result : CommandResult) (single pipeline multiExec : Except AppError Response × World) : Prop where
  charges : ∀ out ∈ [single, pipeline, multiExec], out.2.limiter = afterCharge state request limiter 1 ∧
    out.2.charges = [(request.identity.bucketKey, 1)]
  acquires : ∀ out ∈ [single, pipeline, multiExec], (∃ pool, .acquire pool ∈ out.2.trace) ↔
    (charged state request limiter 1).1 = .ok () ∧ check state request command = .ok ()
  limited : ∀ exceeded, (charged state request limiter 1).1 = .error exceeded →
    ∀ out ∈ [single, pipeline, multiExec], out.1 = .error (.rateLimited exceeded.retryAfterSecs)
  denied : ∀ message, (charged state request limiter 1).1 = .ok () →
    check state request command = .error (.forbidden message) →
    single.1 = .error (.forbidden message) ∧ pipeline.1 = .ok (.slots [.error message]) ∧
      multiExec.1 = .error (.forbidden message)
  refused : ∀ e, (charged state request limiter 1).1 = .ok () → check state request command = .ok () →
    request.acquired = .error e → ∀ out ∈ [single, pipeline, multiExec], out.1 = .error (mapAcquireError state e)
  value : ∀ value, result = .ok value → Called state request limiter command →
    (∀ out ∈ [single, pipeline, multiExec], out.1 = .error .responseTooLarge) ∨
    ∃ rendered, rendered = Json.object [("result", Convert.responseJson (encoding request) value)] ∧
      single.1.map Response.toJson = .ok rendered ∧ pipeline.1.map Response.toJson = .ok (.array [rendered]) ∧
      multiExec.1.map Response.toJson = .ok (.array [rendered])
  redis : ∀ message, result = .error (.redis message) → Called state request limiter command →
    single.1 = .error (.redisError message) ∧ pipeline.1 = .ok (.slots [.error message]) ∧
      multiExec.1 = .ok (.slots [.error message])
  tooLarge : result = .error .responseTooLarge → Called state request limiter command →
    ∀ out ∈ [single, pipeline, multiExec], out.1 = .error .responseTooLarge

private theorem chargeResponseBudget_error {request : Request} {value : RespValue} {budget : Nat} {e : AppError}
    (h : chargeResponseBudget request value budget = .error e) : e = .responseTooLarge := by
  rw [chargeResponseBudget] at h
  cases hx : Convert.chargeResponseBudget value (encoding request) budget with
  | ok rest =>
    rw [hx] at h
    cases h
  | error x =>
    have hlarge : x = .responseTooLarge := Convert.chargeWithinDepth_fails _ _ _ _ x hx
    rw [hx, hlarge] at h
    exact (Except.error.inj h).symm

/-- What all three do, one by one. -/
theorem forall_three {P : Except AppError Response × World → Prop} {a b c : Except AppError Response × World} (ha : P a) (hb : P b)
    (hc : P c) : ∀ out ∈ [a, b, c], P out :=
  List.forall_mem_cons.mpr ⟨ha, List.forall_mem_cons.mpr ⟨hb, List.forall_mem_singleton.mpr hc⟩⟩

private theorem agree_of_courses {state : AppState} {request : Request} {limiter : RateLimit.State String} {command : RedisCommand}
    (result : CommandResult) (execute pipeline transaction : Operation) :
    Agree state request limiter command result
      (course state request limiter command (fun message => .error (.forbidden message)) execute (renderEnvelope state request result))
      (course state request limiter command (fun message => .ok (.slots [.error message])) pipeline (renderEntry state request result))
      (course state request limiter command (fun message => .error (.forbidden message)) transaction
        (renderEntry state request result)) where
  charges := forall_three (course_charges _ _ _) (course_charges _ _ _) (course_charges _ _ _)
  acquires := forall_three (course_acquires _ _ _) (course_acquires _ _ _) (course_acquires _ _ _)
  limited exceeded h := forall_three (course_limited _ _ _ h) (course_limited _ _ _ h) (course_limited _ _ _ h)
  denied message hc hk := ⟨course_denied _ _ _ hc hk, course_denied _ _ _ hc hk, course_denied _ _ _ hc hk⟩
  refused e hc hk ha :=
    forall_three (course_refused _ _ _ hc hk ha) (course_refused _ _ _ hc hk ha) (course_refused _ _ _ hc hk ha)
  value := by
    rintro value rfl ⟨hc, hk, ha⟩
    cases hb : chargeResponseBudget request value state.cfg.server.load.maxResponseBytes with
    | error e =>
      obtain rfl := chargeResponseBudget_error hb
      have henvelope : renderEnvelope state request (.ok value) = .error .responseTooLarge := by
        change (chargeResponseBudget request value state.cfg.server.load.maxResponseBytes >>= _) = _
        rw [hb]
        rfl
      have hentry : renderEntry state request (.ok value) = .error .responseTooLarge := by
        rw [renderEntry, renderResult, hb]
        rfl
      rw [henvelope, hentry]
      exact .inl (forall_three (course_called _ _ _ hc hk ha) (course_called _ _ _ hc hk ha) (course_called _ _ _ hc hk ha))
    | ok rest =>
      have henvelope : renderEnvelope state request (.ok value) = .ok (.envelope value (encoding request)) := by
        change (chargeResponseBudget request value state.cfg.server.load.maxResponseBytes >>= _) = _
        rw [hb]
        rfl
      have hentry : renderEntry state request (.ok value) = .ok (.slots [.result value (encoding request)]) := by
        rw [renderEntry, renderResult, hb]
        rfl
      rw [course_called _ _ _ hc hk ha, course_called _ _ _ hc hk ha, course_called _ _ _ hc hk ha, henvelope, hentry]
      exact .inr ⟨_, rfl, rfl, rfl, rfl⟩
  redis := by
    rintro message rfl ⟨hc, hk, ha⟩
    rw [course_called _ _ _ hc hk ha, course_called _ _ _ hc hk ha, course_called _ _ _ hc hk ha]
    exact ⟨rfl, rfl, rfl⟩
  tooLarge := by
    rintro rfl ⟨hc, hk, ha⟩
    exact forall_three (course_called _ _ _ hc hk ha) (course_called _ _ _ hc hk ha) (course_called _ _ _ hc hk ha)

/-- The array of one command is a pipeline of it, within limits that admit one more
element. -/
theorem parse_alone {state : AppState} {node : Parse.Node} {command : RedisCommand} {bodies : Bytes}
    (hbodies : state.present bodies = ⟨.array (.item node .close), false⟩)
    (hcommand : Parse.command ⟨node, false⟩ state.cfg.server.maxRequestElements = .ok command)
    (helements : Parse.nodes node < state.cfg.server.maxRequestElements) (hcommands : 0 < state.cfg.server.maxPipelineCommands) :
    parseBatch state bodies = .ok [command] := by
  obtain ⟨hof, -, -⟩ := Parse.command_eq_ok.mp hcommand
  rw [parseBatch, hbodies]
  refine Parse.pipeline_eq_ok.mpr ⟨?_, hcommands, ?_, rfl⟩
  · change Parse.commandsOf (.item node .close) = some [command]
    rw [Parse.commandsOf, hof]
    rfl
  · change 1 + (Parse.nodes node + 0) ≤ _
    omega

/-- One command alone on each endpoint, with one result: the same charge, the same
decision, and the same result or error text. -/
theorem endpoints_agree (state : AppState) (request : Request) (upload : Upload) (limiter : RateLimit.State String)
    (body bodies : Bytes) (node : Parse.Node) (command : RedisCommand) (result : CommandResult)
    (hread : readBody state request = .ok body) (hreads : readBody state { request with upload := upload } = .ok bodies)
    (hbody : state.present body = ⟨node, false⟩) (hbodies : state.present bodies = ⟨.array (.item node .close), false⟩)
    (hcommand : Parse.command ⟨node, false⟩ state.cfg.server.maxRequestElements = .ok command)
    (helements : Parse.nodes node < state.cfg.server.maxRequestElements) (hcommands : 0 < state.cfg.server.maxPipelineCommands)
    (hname : command.name ≠ "") (hexecute : request.execute (Compat.normalize command) = result)
    (hpipeline : request.pipeline [Compat.normalize command] = [result])
    (htransaction : request.transaction [Compat.normalize command] = .ok [result]) :
    Agree state request limiter command result (serve state request .command limiter)
      (serve state { request with upload := upload } .pipeline limiter)
      (serve state { request with upload := upload } .multiExec limiter) := by
  have hbatch := parse_alone hbodies hcommand helements hcommands
  rw [serve_command_course hread (hbody.symm ▸ hcommand), serve_pipeline_course hreads hbatch hname hpipeline,
    serve_multiExec_course hreads hbatch htransaction, hexecute]
  exact agree_of_courses result _ _ _

def aloneState : AppState :=
  { sampleState with
    present := fun body =>
      if body = [] then ⟨sampleNode ["GET", "a"], false⟩ else ⟨.array (.item (sampleNode ["GET", "a"]) .close), false⟩ }

def aloneRequest : Request :=
  { sampleRequest with
    execute := fun _ => .error (.redis "WRONGTYPE")
    pipeline := fun _ => [.error (.redis "WRONGTYPE")]
    transaction := fun _ => .ok [.error (.redis "WRONGTYPE")] }

theorem endpoints_agree_redis :
    (serve aloneState aloneRequest .command .empty).1 = .error (.redisError "WRONGTYPE") ∧
    (serve aloneState { aloneRequest with upload := .complete [0] } .pipeline .empty).1 = .ok (.slots [.error "WRONGTYPE"]) ∧
    (serve aloneState { aloneRequest with upload := .complete [0] } .multiExec .empty).1 = .ok (.slots [.error "WRONGTYPE"]) :=
  (endpoints_agree aloneState aloneRequest (.complete [0]) .empty [] [0] (sampleNode ["GET", "a"]) ⟨"GET", [Ascii.bytes "a"]⟩
    (.error (.redis "WRONGTYPE")) rfl rfl rfl rfl rfl (by decide) (by decide) (by decide) rfl rfl rfl).redis
    "WRONGTYPE" rfl ⟨rfl, rfl, rfl⟩

end Agreement
end Srh.Http
