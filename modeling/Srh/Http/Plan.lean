import Srh.Domain.CommandNames
import Srh.Http.Answer

/-! The handlers cut at their await points. A handler waits for its body, for its
pool and for its executor. What it does between the first two is its plan; what is
left for the executor is its work. -/
namespace Srh.Http
open Srh.Lib Srh.Domain Srh.Ports

inductive Work where
  | execute (command : RedisCommand)
  | pipeline (commands : List RedisCommand) (slots : List (Option Slot))
  | transaction (commands : List RedisCommand)

def Work.operation : Work → Operation
  | execute command => .execute command
  | pipeline commands _ => .pipeline commands
  | transaction commands => .transaction commands

def label : Operation → String
  | .execute command => command.name
  | .pipeline _ => "PIPELINE"
  | .transaction _ => "MULTI-EXEC"

inductive Next where
  | answer (result : Except AppError Response)
  | work (work : Work)

/-- What a body amounts to: the command and the length of the audit line, the price,
and what an admitted charge leads to. -/
structure Plan where
  label : Option (String × Nat)
  commandCount : Nat
  next : Next

section Plan
variable (state : AppState) (request : Request) (body : Bytes)

def planCommand : Plan :=
  match Parse.command (state.present body) state.cfg.server.maxRequestElements with
  | .error error => ⟨none, 1, .answer (.error (commandParseError error))⟩
  | .ok command =>
    ⟨some (command.name, 1), 1,
      match check state request command with
      | .error error => .answer (.error (.ofAcl error))
      | .ok _ => .work (.execute (Compat.normalize command))⟩

def nextPipeline (commands : List RedisCommand) : Next :=
  match sift state request commands with
  | .error error => .answer (.error error)
  | .ok (allowed, slots) =>
    if commands.length = 0 then .answer (.ok (.slots []))
    else if allowed.isEmpty then
      .answer ((fill request state.cfg.server.load.maxResponseBytes slots []).map .slots)
    else .work (.pipeline allowed slots)

def planPipeline : Plan :=
  match parseBatch state body with
  | .error error => ⟨none, 1, .answer (.error (batchParseError error))⟩
  | .ok commands => ⟨some ("PIPELINE", commands.length), commands.length, nextPipeline state request commands⟩

def planMultiExec : Plan :=
  match parseBatch state body with
  | .error error => ⟨none, 1, .answer (.error (batchParseError error))⟩
  | .ok commands =>
    if commands = [] then ⟨some ("MULTI-EXEC", 0), 1, .answer (.error (.badRequest "Invalid command"))⟩
    else ⟨some ("MULTI-EXEC", commands.length), commands.length,
      match commands.forM (check state request) with
      | .error error => .answer (.error (.ofAcl error))
      | .ok _ => .work (.transaction (commands.map Compat.normalize))⟩

def plan : Endpoint → Plan
  | .command => planCommand state request body
  | .pipeline => planPipeline state request body
  | .multiExec => planMultiExec state request body

def Work.finish : Work → Except AppError Response
  | execute command => renderEnvelope state request (request.execute command)
  | pipeline commands slots =>
    (fill request state.cfg.server.load.maxResponseBytes slots (request.pipeline commands)).map .slots
  | transaction commands => do
    let results ← (request.transaction commands).mapError (mapExecError state)
    (renderResults request state.cfg.server.load.maxResponseBytes results).map .slots

/-- The end of a request whose charge is admitted, and its effects. -/
def Next.run : Next → Except AppError Response × List Effect
  | answer result => (result, [])
  | work w =>
    match request.acquired with
    | .error e => (.error (mapAcquireError state e), [.acquire request.identity.pool])
    | .ok _ => (w.finish state request, [.acquire request.identity.pool, .call w.operation, .release])

def Plan.run (p : Plan) (limiter : RateLimit.State String) : Except AppError Response × World :=
  let after := World.charge ⟨limiter, []⟩ state request p.commandCount
  match (charged state request limiter p.commandCount).1 with
  | .error exceeded => (.error (.rateLimited exceeded.retryAfterSecs), after)
  | .ok _ => ((p.next.run state request).1, after.log (p.next.run state request).2)

end Plan

section Exec
variable {state : AppState} {request : Request} {limiter : RateLimit.State String}

@[simp] theorem log_nil (w : World) : w.log [] = w := by rw [World.log, List.append_nil]

/-- A handler goes by a plan when it charges its price and ends as the plan does. -/
theorem conclude_planned {p : Plan} {program : Unit → Handler Response}
    (h : ∀ w, conclude (exec (program ()) w) =
      ((p.next.run state request).1, (w.log (p.next.run state request).2).log [.respond])) :
    conclude (exec (chargeRateLimit state request p.commandCount >>= program) ⟨limiter, []⟩) =
      ((p.run state request limiter).1, (p.run state request limiter).2.log [.respond]) := by
  rw [Plan.run]
  cases hc : (charged state request limiter p.commandCount).1 with
  | error exceeded => rw [exec_charge_error _ _ _ _ hc, conclude]
  | ok u => rw [exec_charge_ok _ _ _ _ hc, h]

/-- Work ends as its executor's results are rendered, if there is a lease at all. -/
theorem conclude_work {α : Type} (work : Work) {result : α} {program : α → Handler Response} (w : World)
    (h : ∀ w, conclude (exec (program result) w) = (work.finish state request, w.log [.respond])) :
    conclude (exec (acquire state request >>= fun _ => callAndRelease work.operation result >>= program) w) =
      (((Next.work work).run state request).1, (w.log ((Next.work work).run state request).2).log [.respond]) := by
  rw [Next.run]
  cases ha : request.acquired with
  | error e => rw [exec_acquire_error _ _ _ _ ha, conclude]
  | ok u =>
    rw [exec_acquire_ok _ _ _ _ ha, exec_callAndRelease, h, log_log w]
    rfl

private theorem exec_answered (result : Except AppError Response) (w : World) :
    (result, w.log [.respond]) =
      (((Next.answer result).run state request).1, (w.log ((Next.answer result).run state request).2).log [.respond]) := by
  rw [Next.run, log_nil]

private theorem conclude_command {body : Bytes} (hb : readBody state request = .ok body) :
    conclude (exec (command state request) ⟨limiter, []⟩) =
      (((planCommand state request body).run state request limiter).1,
        ((planCommand state request body).run state request limiter).2.log [.respond]) := by
  rw [command, hb, exec_lift_ok, planCommand]
  cases Parse.command (state.present body) state.cfg.server.maxRequestElements with
  | error error =>
    refine conclude_planned (p := ⟨none, 1, .answer (.error (commandParseError error))⟩) fun w => ?_
    rw [← exec_answered]
    cases error <;> rfl
  | ok command =>
    dsimp only
    cases hk : check state request command with
    | error error =>
      refine conclude_planned (p := ⟨some (command.name, 1), 1, .answer (.error (.ofAcl error))⟩) fun w => ?_
      rw [← exec_answered, Except.mapError, exec_lift_error, conclude]
    | ok u =>
      refine conclude_planned (p := ⟨some (command.name, 1), 1, .work (.execute (Compat.normalize command))⟩) fun w => ?_
      rw [Except.mapError, exec_lift_ok]
      apply conclude_work (.execute (Compat.normalize command))
      intro w
      rw [Work.finish, renderEnvelope]
      cases (request.execute (Compat.normalize command)).mapError (mapExecError state) with
      | error e => rfl
      | ok value =>
        rw [exec_lift_ok, conclude_lift_respond]
        change _ = (chargeResponseBudget request value _ >>= fun _ => .ok (Response.envelope value (encoding request)), _)
        cases chargeResponseBudget request value state.cfg.server.load.maxResponseBytes <;> rfl

private theorem conclude_pipeline {body : Bytes} (hb : readBody state request = .ok body) :
    conclude (exec (pipeline state request) ⟨limiter, []⟩) =
      (((planPipeline state request body).run state request limiter).1,
        ((planPipeline state request body).run state request limiter).2.log [.respond]) := by
  rw [pipeline, hb, exec_lift_ok, planPipeline]
  cases parseBatch state body with
  | error error =>
    refine conclude_planned (p := ⟨none, 1, .answer (.error (batchParseError error))⟩) fun w => ?_
    rw [← exec_answered]
    rfl
  | ok commands =>
    refine conclude_planned (p := ⟨_, _, nextPipeline state request commands⟩) fun w => ?_
    rw [runPipeline, nextPipeline]
    cases sift state request commands with
    | error error => rw [exec_lift_error, conclude, ← exec_answered]
    | ok sifted =>
      obtain ⟨allowed, slots⟩ := sifted
      rw [exec_lift_ok]
      dsimp only
      by_cases hc : commands.length = 0
      · rw [if_pos hc, if_pos hc, ← exec_answered]
        rfl
      · rw [if_neg hc, if_neg hc]
        by_cases ha : allowed.isEmpty
        · rw [runAllowed, if_pos ha, if_pos ha, exec_pure_bind, conclude_lift_respond, ← exec_answered]
        · rw [runAllowed, if_neg ha, if_neg ha, bind_assoc]
          apply conclude_work (.pipeline allowed slots)
          intro w
          rw [conclude_lift_respond, Work.finish]

private theorem conclude_multiExec {body : Bytes} (hb : readBody state request = .ok body) :
    conclude (exec (multiExec state request) ⟨limiter, []⟩) =
      (((planMultiExec state request body).run state request limiter).1,
        ((planMultiExec state request body).run state request limiter).2.log [.respond]) := by
  rw [multiExec, hb, exec_lift_ok, planMultiExec]
  cases parseBatch state body with
  | error error =>
    refine conclude_planned (p := ⟨none, 1, .answer (.error (batchParseError error))⟩) fun w => ?_
    rw [← exec_answered]
    rfl
  | ok commands =>
    dsimp only
    by_cases hc : commands = []
    · rw [if_pos hc, if_pos hc]
      refine conclude_planned (p := ⟨_, 1, .answer (.error (.badRequest "Invalid command"))⟩) fun w => ?_
      rw [← exec_answered]
      rfl
    · rw [if_neg hc, if_neg hc]
      cases commands.forM (check state request) with
      | error error =>
        refine conclude_planned (p := ⟨_, commands.length, .answer (.error (.ofAcl error))⟩) fun w => ?_
        rw [← exec_answered, Except.mapError, exec_lift_error, conclude]
      | ok u =>
        refine conclude_planned (p := ⟨_, commands.length, .work (.transaction (commands.map Compat.normalize))⟩) fun w => ?_
        rw [Except.mapError, exec_lift_ok]
        apply conclude_work (.transaction (commands.map Compat.normalize))
        intro w
        rw [Work.finish]
        cases (request.transaction (commands.map Compat.normalize)).mapError (mapExecError state) with
        | error e => rfl
        | ok results =>
          rw [exec_lift_ok, conclude_lift_respond]
          rfl

/-- Every endpoint reads its body and goes by its plan. -/
theorem serve_planned (endpoint : Endpoint) {body : Bytes} (hb : readBody state request = .ok body) :
    serve state request endpoint limiter =
      (((plan state request body endpoint).run state request limiter).1,
        ((plan state request body endpoint).run state request limiter).2.log [.respond]) := by
  rw [serve]
  cases endpoint with
  | command => rw [handler, conclude_command hb, plan]
  | pipeline => rw [handler, conclude_pipeline hb, plan]
  | multiExec => rw [handler, conclude_multiExec hb, plan]

theorem serve_unread (endpoint : Endpoint) {e : AppError} (hb : readBody state request = .error e) :
    serve state request endpoint limiter = (.error e, ⟨limiter, [.respond]⟩) := by
  rw [serve]
  cases endpoint with
  | command => rw [handler, command, hb, exec_lift_error]; rfl
  | pipeline => rw [handler, pipeline, hb, exec_lift_error]; rfl
  | multiExec => rw [handler, multiExec, hb, exec_lift_error]; rfl

end Exec

section Congr
variable {state : AppState} {r r' : Request}

private theorem check_congr (h : r.identity = r'.identity) (command : RedisCommand) :
    check state r command = check state r' command := by
  rw [check, check, h]

private theorem sift_congr (h : r.identity = r'.identity) (commands : List RedisCommand) :
    sift state r commands = sift state r' commands := by
  induction commands with
  | nil => rfl
  | cons command commands ih => rw [sift, sift, check_congr h, ih]

private theorem renderResult_congr (h : r.encodingHeader = r'.encodingHeader) (budget : Nat) (result : CommandResult) :
    renderResult r budget result = renderResult r' budget result := by
  have he : encoding r = encoding r' := by rw [encoding, encoding, h]
  rw [renderResult.eq_def, renderResult.eq_def]
  simp only [chargeResponseBudget, he]

theorem fill_congr (h : r.encodingHeader = r'.encodingHeader) (budget : Nat) (slots : List (Option Slot))
    (results : List CommandResult) : fill r budget slots results = fill r' budget slots results := by
  fun_induction fill r budget slots results with
  | case1 => rfl
  | case2 => rfl
  | case3 budget denied slots results ih => rw [ih, fill]
  | case4 => rfl
  | case5 budget slots result results ih =>
    rw [fill, renderResult_congr h]
    refine bind_congr fun rendered => ?_
    simp only [ih]

/-- A plan depends on whose request it is and on its encoding, not on what the pool and
the executor will answer. -/
theorem plan_congr (hi : r.identity = r'.identity) (he : r.encodingHeader = r'.encodingHeader) (body : Bytes)
    (endpoint : Endpoint) : plan state r body endpoint = plan state r' body endpoint := by
  have hcheck : check state r = check state r' := funext (check_congr hi)
  cases endpoint with
  | command => simp only [plan, planCommand, hcheck]
  | pipeline => simp only [plan, planPipeline, nextPipeline, sift_congr hi, fill_congr he]
  | multiExec => simp only [plan, planMultiExec, hcheck]

end Congr

section Work
variable {state : AppState} {request : Request} {body : Bytes}

/-- The work of a plan is what the policy lets through of the commands that were
asked for, and they are what is charged. -/
structure Entitled (state : AppState) (request : Request) (endpoint : Endpoint) (body : Bytes) (p : Plan) (w : Work) : Prop where
  requested : ∃ commands, requested state endpoint body = .ok commands ∧ commands.length = p.commandCount ∧
    w.operation.commands = allowed state request commands
  nonempty : w.operation.commands ≠ []
  labelled : p.label = some (label w.operation, p.commandCount)

private theorem entitled_command {p : Plan} {w : Work} (hp : planCommand state request body = p) (hw : p.next = .work w) :
    Entitled state request .command body p w := by
  rw [planCommand] at hp
  cases hparse : Parse.command (state.present body) state.cfg.server.maxRequestElements with
  | error error =>
    rw [hparse] at hp
    cases hp
    cases hw
  | ok command =>
    rw [hparse] at hp
    dsimp only at hp
    cases hk : check state request command with
    | error error =>
      rw [hk] at hp
      cases hp
      cases hw
    | ok u =>
      rw [hk] at hp
      cases hp
      cases hw
      refine ⟨⟨[command], by rw [requested, hparse]; rfl, rfl, ?_⟩, List.cons_ne_nil _ _, ?_⟩
      · rw [allowed_of_all]
        · rfl
        · intro c hc
          obtain rfl := List.mem_singleton.mp hc
          exact passes_iff.mpr hk
      · rw [Work.operation, label, Compat.normalize_name]

/-- A pipeline that gets past its policy leaves the allowed commands. -/
theorem sift_allowed {commands allowed : List RedisCommand} {slots : List (Option Slot)}
    (h : sift state request commands = .ok (allowed, slots)) : allowed = Http.allowed state request commands := by
  by_cases hi : ∃ command ∈ commands, command.name = ""
  · rw [sift_error hi] at h
    cases h
  · have hnames : ∀ command ∈ commands, command.name ≠ "" := fun c hm he => hi ⟨c, hm, he⟩
    rw [sift_ok hnames] at h
    cases h
    rfl

private theorem entitled_pipeline {p : Plan} {w : Work} (hp : planPipeline state request body = p) (hw : p.next = .work w) :
    Entitled state request .pipeline body p w := by
  rw [planPipeline] at hp
  cases hparse : parseBatch state body with
  | error error =>
    rw [hparse] at hp
    cases hp
    cases hw
  | ok commands =>
    rw [hparse] at hp
    cases hp
    have hr : requested state .pipeline body = .ok commands := hparse
    dsimp only at hw
    rw [nextPipeline] at hw
    cases hs : sift state request commands with
    | error error =>
      rw [hs] at hw
      cases hw
    | ok sifted =>
      obtain ⟨allowed, slots⟩ := sifted
      rw [hs] at hw
      dsimp only at hw
      split at hw
      · cases hw
      · split at hw
        · cases hw
        · rename_i hne
          cases hw
          exact ⟨⟨commands, hr, rfl, sift_allowed hs⟩, by simpa [Work.operation, Operation.commands] using hne, rfl⟩

private theorem entitled_multiExec {p : Plan} {w : Work} (hp : planMultiExec state request body = p) (hw : p.next = .work w) :
    Entitled state request .multiExec body p w := by
  rw [planMultiExec] at hp
  cases hparse : parseBatch state body with
  | error error =>
    rw [hparse] at hp
    cases hp
    cases hw
  | ok commands =>
    rw [hparse] at hp
    have hr : requested state .multiExec body = .ok commands := hparse
    dsimp only at hp
    split at hp
    · cases hp
      cases hw
    · rename_i hne
      cases hk : commands.forM (check state request) with
      | error error =>
        rw [hk] at hp
        cases hp
        cases hw
      | ok u =>
        rw [hk] at hp
        cases hp
        cases hw
        refine ⟨⟨commands, hr, rfl, ?_⟩, by simpa [Work.operation, Operation.commands] using hne, rfl⟩
        rw [allowed_of_all]
        · rfl
        · intro c hc
          exact passes_iff.mpr (forM_eq_ok.mp hk c hc)

theorem entitled_of_work {endpoint : Endpoint} {w : Work} (hw : (plan state request body endpoint).next = .work w) :
    Entitled state request endpoint body (plan state request body endpoint) w := by
  cases endpoint with
  | command => exact entitled_command rfl hw
  | pipeline => exact entitled_pipeline rfl hw
  | multiExec => exact entitled_multiExec rfl hw

/-- No more is sent than was charged for. -/
theorem Entitled.length_le {endpoint : Endpoint} {p : Plan} {w : Work} (h : Entitled state request endpoint body p w) :
    w.operation.commands.length ≤ p.commandCount := by
  obtain ⟨commands, -, hlen, hops⟩ := h.requested
  rw [hops, allowed, List.length_map, ← hlen]
  exact List.length_filter_le _ _

/-- Whatever is sent passes the policy as it is sent, after its normalisation. -/
theorem Entitled.checked {endpoint : Endpoint} {p : Plan} {w : Work} (h : Entitled state request endpoint body p w) :
    ∀ sent ∈ w.operation.commands, check state request sent = .ok () := by
  obtain ⟨commands, -, -, hops⟩ := h.requested
  intro sent hm
  rw [hops] at hm
  obtain ⟨command, hc, rfl⟩ := List.mem_map.mp hm
  rw [check, Acl.check_normalize]
  exact passes_iff.mp (List.mem_filter.mp hc).2

end Work
end Srh.Http
