import Srh.Http.GatewayAudit

/-! What clients cannot see. The reasons that an identity service, a pool or a connection
gives for its failure are for the operator; two runs of the service that differ in nothing
else look the same from outside, except for the probe of the operator. -/
namespace Srh.Http
open Srh.Lib Srh.Domain Srh.Ports

section Blank

/-- The reason of an unavailable service is a diagnostic; a refusal is for the client. -/
def blankAuth : AuthError → AuthError
  | .serviceUnavailable _ => .serviceUnavailable ""
  | e => e

def blankAcquire : AcquireError → AcquireError
  | .unknownPool _ => .unknownPool ""
  | .internal _ => .internal ""
  | e => e

/-- What Redis itself answers is for the client. -/
def blankExec : ExecError → ExecError
  | .transport _ => .transport ""
  | e => e

def blankReadiness (pool : PoolReadiness) : PoolReadiness :=
  match pool.status with
  | .ready => pool
  | .unavailable _ => { pool with status := .unavailable "" }

def blankApp : AppError → AppError
  | .poolOpen retryAfterSecs _ => .poolOpen retryAfterSecs ""
  | .internal _ => .internal ""
  | e => e

def blankResult (result : CommandResult) : CommandResult := result.mapError blankExec

def Request.blank (request : Request) : Request :=
  { request with
    acquired := request.acquired.mapError blankAcquire
    execute := fun command => blankResult (request.execute command)
    pipeline := fun commands => (request.pipeline commands).map blankResult
    transaction := fun commands => ((request.transaction commands).mapError blankExec).map (List.map blankResult) }

private theorem blankResult_blankResult (result : CommandResult) : blankResult (blankResult result) = blankResult result := by
  rcases result with (_ | _ | _ | _) | value
  case ok => rfl
  all_goals rfl

private theorem blankReadiness_blankReadiness (pool : PoolReadiness) :
    blankReadiness (blankReadiness pool) = blankReadiness pool := by
  obtain ⟨name, status⟩ := pool
  cases status <;> rfl

private theorem blankAcquire_blankAcquire (e : AcquireError) : blankAcquire (blankAcquire e) = blankAcquire e := by
  cases e <;> rfl

private theorem Request.blank_blank (request : Request) : request.blank.blank = request.blank := by
  have hacquired : (request.acquired.mapError blankAcquire).mapError blankAcquire = request.acquired.mapError blankAcquire := by
    rcases request.acquired with e | u
    · exact congrArg Except.error (blankAcquire_blankAcquire e)
    · rfl
  have hresults (results : List CommandResult) : (results.map blankResult).map blankResult = results.map blankResult := by
    rw [List.map_map]
    exact List.map_congr_left fun result _ => blankResult_blankResult result
  have htransaction (result : BatchResult) :
      (((result.mapError blankExec).map (List.map blankResult)).mapError blankExec).map (List.map blankResult) =
        (result.mapError blankExec).map (List.map blankResult) := by
    rcases result with (_ | _ | _ | _) | results
    case ok => exact congrArg Except.ok (hresults results)
    all_goals rfl
  simp only [Request.blank, hacquired, blankResult_blankResult, hresults, htransaction]

end Blank

section Handler
variable {state : AppState} {request : Request}

private theorem blank_mapAcquireError (e : AcquireError) :
    blankApp (mapAcquireError state (blankAcquire e)) = blankApp (mapAcquireError state e) := by
  cases e <;> rfl

private theorem blank_mapExecError (e : ExecError) :
    blankApp (mapExecError state (blankExec e)) = blankApp (mapExecError state e) := by
  cases e <;> rfl

/-- The entry of a result never shows the reason of a failed transport. -/
theorem renderResult_blank (budget : Nat) (result : CommandResult) :
    renderResult request budget (blankResult result) = renderResult request budget result := by
  rcases result with (_ | _ | _ | _) | value <;> rfl

private theorem fill_blank (budget : Nat) (slots : List (Option Slot)) (results : List CommandResult) :
    fill request budget slots (results.map blankResult) = fill request budget slots results := by
  fun_induction fill request budget slots results with
  | case1 => rfl
  | case2 => rfl
  | case3 budget denied slots results ih => rw [fill, ih]
  | case4 => rfl
  | case5 budget slots result results ih =>
    rw [List.map_cons, fill, renderResult_blank]
    refine bind_congr fun rendered => ?_
    simp only [ih]

/-- A failure shows the same without its diagnostic. -/
theorem intoResponse_blank (e : AppError) : (blankApp e).intoResponse = e.intoResponse := by
  cases e <;> rfl

/-- What is made of the executor's results, up to the diagnostic of its failure. -/
theorem finish_blank (work : Work) :
    (work.finish state request.blank).mapError blankApp = (work.finish state request).mapError blankApp := by
  have hfill (budget : Nat) (slots : List (Option Slot)) (results : List CommandResult) :
      fill request.blank budget slots (results.map blankResult) = fill request budget slots results := by
    have hencoding : request.blank.encodingHeader = request.encodingHeader := rfl
    rw [fill_congr hencoding, fill_blank]
  cases work with
  | execute command =>
    change (renderEnvelope state request (blankResult (request.execute command))).mapError blankApp =
      (renderEnvelope state request (request.execute command)).mapError blankApp
    rcases request.execute command with e | value
    · exact congrArg Except.error (blank_mapExecError e)
    · rfl
  | pipeline commands slots => exact congrArg (fun filled => (filled.map Response.slots).mapError blankApp) (hfill _ _ _)
  | transaction commands =>
    have htransaction : request.blank.transaction commands =
        ((request.transaction commands).mapError blankExec).map (List.map blankResult) := rfl
    rw [Work.finish, Work.finish, htransaction]
    rcases request.transaction commands with e | results
    · exact congrArg Except.error (blank_mapExecError e)
    · have hrender (budget : Nat) :
          renderResults request.blank budget (results.map blankResult) = renderResults request budget results := by
        rw [renderResults_eq_fill, renderResults_eq_fill, hfill, List.map_map]
        rfl
      exact congrArg (fun rendered => (rendered.map Response.slots).mapError blankApp) (hrender _)

end Handler

namespace Gateway
open Extractors

section Blank

def Executor.blank (executor : Executor) : Executor where
  execute command := blankResult (executor.execute command)
  pipeline commands := (executor.pipeline commands).map blankResult
  transaction commands := ((executor.transaction commands).mapError blankExec).map (List.map blankResult)

/-- A signal without its diagnostics. -/
def Signal.blank : Signal → Signal
  | checked pools => checked (pools.map blankReadiness)
  | authenticated now answer => authenticated now (answer.mapError blankAuth)
  | acquired answer => acquired (answer.mapError blankAcquire)
  | called executor => called executor.blank
  | signal => signal

def Event.blank : Event → Event
  | .signal i heard => .signal i heard.blank
  | e => e

def Waiting.blank : Waiting → Waiting
  | reading request => reading request.blank
  | acquiring request work => acquiring request.blank work
  | calling request work => calling request.blank work
  | w => w

def Answer.blank : Answer → Answer
  | failure error => failure (blankApp error)
  | readiness pools => readiness (pools.map blankReadiness)
  | a => a

def Phase.blank : Phase → Phase
  | waiting w => waiting w.blank
  | answered a => answered a.blank
  | dropped => dropped

def Deed.blank : Deed → Deed
  | authenticate bearer answer => authenticate bearer (answer.mapError blankAuth)
  | acquire pool answer => acquire pool (answer.mapError blankAcquire)
  | deed => deed

def Task.blank (task : Task) : Task :=
  { task with phase := task.phase.blank, heard := task.heard.map Signal.blank, deeds := task.deeds.map Deed.blank }

def Turn.blank (t : Turn) : Turn := { t with phase := t.phase.blank, deeds := t.deeds.map Deed.blank }

def State.blank (s : State) : State := { s with tasks := s.tasks.map Task.blank }

end Blank

section Turn
variable {state : AppState} {limiter : RateLimit.State String} {task : Task}

private theorem identified_blank (answer : Except AuthError (Option Identity)) :
    identified (answer.mapError blankAuth) = identified answer := by
  rcases answer with (_ | _ | _) | identity
  · rfl
  · rfl
  · rfl
  · rfl

private theorem ofResult_blank (result : Except AppError Response) :
    (Answer.ofResult result).blank = Answer.ofResult (result.mapError blankApp) := by
  cases result <;> rfl

private theorem blank_authenticate (token : String) (answer : Except AuthError (Option Identity)) :
    (Deed.authenticate token (answer.mapError blankAuth)).blank = (Deed.authenticate token answer).blank := by
  rcases answer with (_ | _ | _) | identity
  · rfl
  · rfl
  · rfl
  · rfl

private theorem onAuthenticated_blank (token : String) (now : Nat) (answer : Except AuthError (Option Identity)) :
    (onAuthenticated state limiter task.blank token now (answer.mapError blankAuth)).blank =
      (onAuthenticated state limiter task token now answer).blank := by
  rw [onAuthenticated, onAuthenticated, identified_blank]
  cases hi : identified answer with
  | error refusal =>
    have hdeeds : [Deed.authenticate token (answer.mapError blankAuth)].map Deed.blank =
        [Deed.authenticate token answer].map Deed.blank := congrArg (· :: []) (blank_authenticate token answer)
    dsimp only [Turn.blank]
    rw [hdeeds]
    rfl
  | ok identity =>
    obtain rfl := identified_eq_ok.mp hi
    dsimp only
    cases (RateLimit.probe state.rateLimiter limiter now identity.bucketKey).1 with
    | error exceeded => rfl
    | ok u => rfl

private theorem onRead_blank (endpoint : Endpoint) (request : Request) :
    (onRead state limiter task.blank endpoint request.blank).blank = (onRead state limiter task endpoint request).blank := by
  have hread : readBody state request.blank = readBody state request := rfl
  rw [onRead, onRead, hread]
  cases readBody state request with
  | error error => rfl
  | ok body =>
    have hidentity : request.blank.identity = request.identity := rfl
    have hencoding : request.blank.encodingHeader = request.encodingHeader := rfl
    have hcharged (n : Nat) : charged state request.blank limiter n = charged state request limiter n := rfl
    dsimp only
    rw [plan_congr hidentity hencoding, hcharged]
    cases (charged state request limiter (plan state request body endpoint).commandCount).1 with
    | error exceeded => rfl
    | ok u =>
      dsimp only
      cases (plan state request body endpoint).next with
      | answer result => rfl
      | work work =>
        have hwaiting : (Waiting.acquiring request.blank work).blank = (Waiting.acquiring request work).blank :=
          congrArg (Waiting.acquiring · work) request.blank_blank
        dsimp only [Turn.blank, afterAccess, Phase.blank]
        rw [hwaiting]
        rfl

private theorem onAcquired_blank (request : Request) (work : Work) :
    (onAcquired state limiter task.blank request.blank work).blank = (onAcquired state limiter task request work).blank := by
  rw [onAcquired, onAcquired]
  have hacquired : request.blank.acquired = request.acquired.mapError blankAcquire := rfl
  rw [hacquired]
  cases request.acquired with
  | error error =>
    have hanswer : (Answer.failure (mapAcquireError state (blankAcquire error))).blank =
        (Answer.failure (mapAcquireError state error)).blank := congrArg Answer.failure (blank_mapAcquireError error)
    have hdeeds (pool : String) : [Deed.acquire pool (.error (blankAcquire error))].map Deed.blank =
        [Deed.acquire pool (.error error)].map Deed.blank :=
      congrArg (fun e => [Deed.acquire pool (.error e)]) (blankAcquire_blankAcquire error)
    dsimp only [Except.mapError, Turn.blank, Phase.blank]
    rw [hanswer, hdeeds]
    rfl
  | ok u =>
    have hwaiting : (Waiting.calling request.blank work).blank = (Waiting.calling request work).blank :=
      congrArg (Waiting.calling · work) request.blank_blank
    dsimp only [Except.mapError, Turn.blank, Phase.blank]
    rw [hwaiting]
    rfl

private theorem onCalled_blank (request : Request) (work : Work) :
    (onCalled state limiter task.blank request.blank work).blank = (onCalled state limiter task request work).blank := by
  rw [onCalled, onCalled]
  dsimp only [Turn.blank, Phase.blank]
  rw [ofResult_blank, ofResult_blank, finish_blank]
  rfl

private theorem keeps_blank (phase : Phase) (held : List Guard) : phase.blank.keeps held = phase.keeps held := by
  cases phase <;> rfl

private theorem drops_blank (phase : Phase) (held : List Guard) : phase.blank.drops held = phase.drops held := by
  cases phase <;> rfl

private theorem waiting?_blank (phase : Phase) : phase.blank.waiting? = phase.waiting?.map Waiting.blank := by
  cases phase <;> rfl

/-- A task that is told the same but for diagnostics does the same but for diagnostics. -/
theorem turn_blank (limiter : RateLimit.State String) (task : Task) (signal : Signal) (w : Waiting) :
    (turn state limiter task.blank signal.blank w.blank).map Turn.blank = (turn state limiter task signal w).map Turn.blank := by
  cases signal with
  | checked pools =>
    cases w with
    | checking =>
      have hpools : (pools.map blankReadiness).map blankReadiness = pools.map blankReadiness := by
        rw [List.map_map]
        exact List.map_congr_left fun pool _ => blankReadiness_blankReadiness pool
      exact congrArg (fun pools => some ({ limiter := limiter, phase := .answered (.readiness pools), audit := task.audit } : Turn))
        hpools
    | _ => rfl
  | authenticated now answer =>
    cases w with
    | authenticating token => exact congrArg some (onAuthenticated_blank token now answer)
    | _ => rfl
  | read now upload =>
    cases w with
    | reading request =>
      have hpath : task.blank.inbound = task.inbound := rfl
      rw [turn.eq_def, turn.eq_def]
      dsimp only [Signal.blank, Waiting.blank]
      rw [hpath]
      cases route task.inbound.path with
      | api endpoint => exact congrArg some (onRead_blank endpoint (hear request (.read now upload)))
      | _ => rfl
    | _ => rfl
  | acquired answer =>
    cases w with
    | acquiring request work => exact congrArg some (onAcquired_blank (hear request (.acquired answer)) work)
    | _ => rfl
  | called executor =>
    cases w with
    | calling request work => exact congrArg some (onCalled_blank (hear request (.called executor)) work)
    | _ => rfl
  | elapse => cases w <;> rfl
  | abandon => cases w <;> rfl

end Turn

section Run
variable {state : AppState}

private theorem allReady_eq (pools : List PoolReadiness) : Health.allReady pools = pools.all fun pool => pool.status = .ready := by
  have hfold (acc : Bool × List (String × Json)) :
      (pools.foldl (fun acc pool => (acc.1 && pool.status = .ready, Json.insert pool.pool (Health.entry pool.status) acc.2)) acc).1 =
        (acc.1 && pools.all fun pool => pool.status = .ready) := by
    induction pools generalizing acc with
    | nil => exact (Bool.and_true _).symm
    | cons pool pools ih => rw [List.foldl_cons, ih, List.all_cons, Bool.and_assoc]
  exact (hfold (true, [])).trans (Bool.true_and _)

private theorem allReady_blank (pools : List PoolReadiness) : Health.allReady (pools.map blankReadiness) = Health.allReady pools := by
  rw [allReady_eq, allReady_eq, List.all_map]
  congr 1
  funext ⟨name, status⟩
  cases status <;> rfl

/-- A failure is counted and labelled the same without its diagnostic. -/
theorem status_blank (answer : Answer) : answer.blank.status = answer.status := by
  cases answer with
  | failure error => exact congrArg AppError.Reply.status (intoResponse_blank error)
  | readiness pools => simp only [Answer.blank, Answer.status, Health.status, allReady_blank]
  | _ => rfl

private theorem counters_blank (path : String) (phase : Phase) : phase.blank.counters path = phase.counters path := by
  cases phase with
  | answered answer =>
    have hconversion : conversionCounters answer.blank = conversionCounters answer := by
      rcases answer with _ | error | _ | _ | _ | _ | _
      case failure => cases error <;> rfl
      all_goals rfl
    rw [Phase.blank, Phase.counters, Phase.counters, answerCounters, answerCounters, hconversion, status_blank]
  | _ => rfl

private theorem withTurn_blank (s : State) (i : Nat) (task : Task) (signal : Signal) (t : Turn) :
    (s.withTurn i task signal t).blank = s.blank.withTurn i task.blank signal.blank t.blank := by
  simp only [State.blank, State.withTurn, Task.turned, Task.blank, Turn.blank, keeps_blank, drops_blank, counters_blank,
    List.map_set, List.map_append, List.map_cons, List.map_nil]

def blankStep (state : AppState) (s : State) : Event → Option State
  | .arrive inbound => some (s.arrive state inbound)
  | .signal i signal => do
    let task ← s.tasks[i]?
    let w ← task.phase.waiting?
    let t ← (turn state s.limiter task signal w).map Turn.blank
    some (s.withTurn i task signal t)
  | .sweep now => some (s.sweep state now)

private theorem Enters.blank {available : Nat} {inbound : Inbound} {phase : Phase} {counted : List Counter}
    (h : Enters state available inbound phase counted) : phase.blank = phase := by
  cases h <;> rfl

private theorem arrive_blank (s : State) (inbound : Inbound) : (s.arrive state inbound).blank = s.blank.arrive state inbound := by
  simp only [State.blank, State.arrive, Task.blank, List.map_append, List.map_cons, List.map_nil,
    (enters_enter state s.available inbound).blank]

private theorem step_blank (s : State) (e : Event) : (step state s e).map State.blank = blankStep state s.blank e.blank := by
  cases e with
  | arrive inbound => exact congrArg some (arrive_blank s inbound)
  | sweep now => rfl
  | signal i signal =>
    simp only [step, blankStep, Event.blank]
    have htasks : s.blank.tasks[i]? = s.tasks[i]?.map Task.blank := List.getElem?_map ..
    rw [htasks]
    cases s.tasks[i]? with
    | none => rfl
    | some task =>
      have hwaiting : task.blank.phase.waiting? = task.phase.waiting?.map Waiting.blank := waiting?_blank task.phase
      simp only [Option.map_some, Option.bind_eq_bind, Option.bind_some, hwaiting]
      cases task.phase.waiting? with
      | none => rfl
      | some w =>
        have hlimiter : s.blank.limiter = s.limiter := rfl
        simp only [Option.map_some, Option.bind_some, hlimiter, turn_blank]
        cases turn state s.limiter task signal w with
        | none => rfl
        | some t => exact congrArg some (withTurn_blank s i task signal t)

end Run

/-- What the client of a task is shown. -/
def Task.seen (task : Task) : Option (Nat × Option Json × Option Nat) :=
  task.phase.answer?.map fun answer => (answer.status, answer.body, answer.retryAfter)

private theorem answer?_blank (task : Task) : task.blank.phase.answer? = task.phase.answer?.map Answer.blank := by
  rw [Task.blank]
  cases task.phase <;> rfl

private theorem line_blank (task : Task) : task.blank.line = task.line := by
  rw [Task.line, Task.line, answer?_blank, Option.bind_map]
  simp only [Function.comp_def, status_blank]
  rfl

/-- Only the report on the pools shows what is blanked. -/
theorem seen_blank {task : Task} (h : ∀ pools, task.phase ≠ .answered (.readiness pools)) : task.blank.seen = task.seen := by
  rw [Task.seen, Task.seen, answer?_blank, Option.map_map]
  cases hp : task.phase with
  | answered answer =>
    cases answer with
    | readiness pools => exact absurd hp (h pools)
    | failure error =>
      simp only [Phase.answer?, Option.map_some, Function.comp_apply, Answer.blank, Answer.status, Answer.body, Answer.retryAfter,
        intoResponse_blank]
    | _ => rfl
  | _ => rfl

/-- The report goes to local clients of /ready. -/
theorem Finished.reports {state : AppState} {calls : List Owned} {i : Nat} {inbound : Inbound} {phase : Phase} {heard : List Signal}
    {audit : Audit} {deeds : List Deed} (h : Finished state calls i inbound phase heard audit deeds) {pools : List PoolReadiness}
    (hp : phase = .answered (.readiness pools)) : route inbound.path = .ready ∧ inbound.loopback = true := by
  cases h with
  | entered _ h =>
    cases hp
    cases h
  | checked _ hroute hlocal => exact ⟨hroute, hlocal⟩
  | answered _ _ _ _ | finished _ _ _ _ =>
    have hp := Phase.answered.inj hp
    rw [Answer.ofResult.eq_def] at hp
    split at hp <;> cases hp
  | _ => cases hp

private theorem reports_run {state : AppState} {events : List Event} {s : State} (hrun : (machine state).run (start state) events = some s)
    {i : Nat} {task : Task} (hi : s.tasks[i]? = some task) {pools : List PoolReadiness}
    (hp : task.phase = .answered (.readiness pools)) : route task.inbound.path = .ready ∧ task.inbound.loopback = true := by
  have ht := (coherent_run hrun).traced i task hi
  rw [Traced, hp] at ht
  exact ht.reports rfl

/-- Two runs of the service in which the outside says the same, but for the reasons of an
unavailable identity service, of a refused lease, of a failed transport and of a pool that
is not ready, are the same to the metrics, to the audit and to the limiter, and to every
client but a local one of /ready. The message of a 403 is no such reason. -/
theorem diagnostics_concealed (state : AppState) (events others : List Event) (s : State)
    (hrun : (machine state).run (start state) events = some s) (halike : others.map Event.blank = events.map Event.blank) :
    ∃ t, (machine state).run (start state) others = some t ∧ t.tasks.map Task.line = s.tasks.map Task.line ∧
      t.counted = s.counted ∧ t.inFlight = s.inFlight ∧ t.calls = s.calls ∧
      ∀ (i : Nat) (task other : Task), s.tasks[i]? = some task → t.tasks[i]? = some other →
        other.seen = task.seen ∨ route task.inbound.path = .ready ∧ task.inbound.loopback = true := by
  have hstep (a b : State) (e d : Event) (hs : a.blank = b.blank) (he : e.blank = d.blank) :
      ((machine state).step a e).map State.blank = ((machine state).step b d).map State.blank := by
    change (step state a e).map State.blank = (step state b d).map State.blank
    rw [step_blank, step_blank, hs, he]
  have hview := Machine.run_view State.blank Event.blank hstep (show (start state).blank = (start state).blank from rfl) halike
  rw [hrun] at hview
  obtain ⟨t, ht, hblank⟩ := Option.map_eq_some_iff.mp hview
  have hline (u : State) : u.blank.tasks.map Task.line = u.tasks.map Task.line := by
    rw [State.blank, List.map_map]
    exact List.map_congr_left fun task _ => line_blank task
  have hcounted : t.blank.counted = s.blank.counted := by rw [hblank]
  have hinFlight : t.blank.inFlight = s.blank.inFlight := by rw [hblank]
  have hcalls : t.blank.calls = s.blank.calls := by rw [hblank]
  refine ⟨t, ht, by rw [← hline, hblank, hline], hcounted, hinFlight, hcalls, ?_⟩
  intro i task other hi ho
  have hsame : other.blank = task.blank := by
    have htasks : t.blank.tasks[i]? = s.blank.tasks[i]? := by rw [hblank]
    have hget (u : State) : u.blank.tasks[i]? = u.tasks[i]?.map Task.blank := List.getElem?_map ..
    rw [hget, hget, hi, ho] at htasks
    exact Option.some.inj htasks
  by_cases hreport : ∃ pools, task.phase = .answered (.readiness pools)
  · obtain ⟨pools, hp⟩ := hreport
    exact .inr (reports_run hrun hi hp)
  by_cases hother : ∃ pools, other.phase = .answered (.readiness pools)
  · obtain ⟨pools, hp⟩ := hother
    have hinbound : other.blank.inbound = task.blank.inbound := by rw [hsame]
    have hinbound : other.inbound = task.inbound := hinbound
    rw [← hinbound]
    exact .inr (reports_run ht ho hp)
  · left
    rw [← seen_blank fun pools hp => hreport ⟨pools, hp⟩, ← seen_blank fun pools hp => hother ⟨pools, hp⟩, hsame]

def unverified (reason : String) : List Event :=
  [.arrive sampleInbound, .signal 0 (.authenticated 1 (.error (.serviceUnavailable reason)))]

theorem diagnostics_concealed_unverified :
    ∃ s t, (machine sampleServer).run (start sampleServer) (unverified "connection refused") = some s ∧
      (machine sampleServer).run (start sampleServer) (unverified "no key for the token") = some t ∧
      t.tasks.map Task.line = s.tasks.map Task.line ∧
      ∀ (i : Nat) (task other : Task), s.tasks[i]? = some task → t.tasks[i]? = some other →
        other.seen = task.seen ∨ route task.inbound.path = .ready ∧ task.inbound.loopback = true := by
  have h : ((machine sampleServer).run (start sampleServer) (unverified "connection refused")).isSome := by decide +kernel
  obtain ⟨s, hs⟩ := Option.isSome_iff_exists.mp h
  obtain ⟨t, ht, hline, -, -, -, hseen⟩ :=
    diagnostics_concealed sampleServer (unverified "connection refused") (unverified "no key for the token") s hs rfl
  exact ⟨s, t, hs, ht, hline, hseen⟩

end Gateway
end Srh.Http
