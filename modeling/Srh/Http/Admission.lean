import Srh.Http.Handlers

/-! What every request does after its authentication, in which order: it reads its
body, charges its identity once, acquires, calls the executor, releases, responds. -/
namespace Srh.Http
open Srh.Lib Srh.Domain Srh.Ports

section Spec
variable (state : AppState) (request : Request)

def requested (endpoint : Endpoint) (body : Bytes) : Except Parse.ParseError (List RedisCommand) :=
  match endpoint with
  | .command =>
    (Parse.command (state.present body) state.cfg.server.maxRequestElements).map fun command => [command]
  | .pipeline => parseBatch state body
  | .multiExec => parseBatch state body

/-- The price of a body: one for each command, and at least one. -/
def price : Except Parse.ParseError (List RedisCommand) → Nat
  | .error _ => 1
  | .ok commands => max 1 commands.length

def passes (command : RedisCommand) : Bool := (check state request command).isOk

/-- The policy lets the request through to Redis: a pipeline with any of its
commands, the other two with all of them. -/
def Passes (endpoint : Endpoint) (commands : List RedisCommand) : Prop :=
  match endpoint with
  | .pipeline => ∃ command ∈ commands, passes state request command
  | _ => ∀ command ∈ commands, passes state request command

def allowed (commands : List RedisCommand) : List RedisCommand :=
  (commands.filter (passes state request)).map Compat.normalize

def afterCharge (limiter : RateLimit.State String) (commandCount : Nat) : RateLimit.State String :=
  (RateLimit.takeDebtForgivenEvictions
    (RateLimit.charge state.rateLimiter limiter request.now request.identity.bucketKey commandCount).2).2

/-- The effects of a request and the limiter it leaves, which is the limiter after one
charge of the identity's bucket for the price of the body. -/
inductive Lawful (endpoint : Endpoint) (limiter : RateLimit.State String) : World → Prop where
  /-- The body cannot be read: nothing is charged. -/
  | unread {e : AppError} (hb : readBody state request = .error e) : Lawful endpoint limiter ⟨limiter, [.respond]⟩
  /-- One charge, of the price of the body, and nothing else. -/
  | charged {body : Bytes} {n : Nat} (hb : readBody state request = .ok body)
      (hn : max n 1 = price (requested state endpoint body)) :
      Lawful endpoint limiter
        ⟨afterCharge state request limiter (price (requested state endpoint body)),
          [.charge request.identity.bucketKey n, .respond]⟩
  /-- The charge is admitted and the policy passed, and the pool refuses. -/
  | refused {body : Bytes} {n : Nat} {commands : List RedisCommand} (hb : readBody state request = .ok body)
      (hr : requested state endpoint body = .ok commands) (hn : max n 1 = price (.ok commands))
      (hc : (RateLimit.charge state.rateLimiter limiter request.now request.identity.bucketKey
        (price (.ok commands))).1 = .ok ())
      (hp : Passes state request endpoint commands) (ha : request.acquired ≠ .ok ()) :
      Lawful endpoint limiter
        ⟨afterCharge state request limiter (price (.ok commands)),
          [.charge request.identity.bucketKey n, .acquire request.identity.pool, .respond]⟩
  /-- The executor gets the allowed commands, and its lease is released at once. -/
  | called {body : Bytes} {n : Nat} {commands : List RedisCommand} {operation : Operation}
      (hb : readBody state request = .ok body) (hr : requested state endpoint body = .ok commands)
      (hn : max n 1 = price (.ok commands))
      (hc : (RateLimit.charge state.rateLimiter limiter request.now request.identity.bucketKey
        (price (.ok commands))).1 = .ok ())
      (hp : Passes state request endpoint commands) (ha : request.acquired = .ok ())
      (ho : operation.commands = allowed state request commands) (hne : operation.commands ≠ []) :
      Lawful endpoint limiter
        ⟨afterCharge state request limiter (price (.ok commands)),
          [.charge request.identity.bucketKey n, .acquire request.identity.pool, .call operation, .release, .respond]⟩

end Spec

section Proof
variable {state : AppState} {request : Request} {limiter : RateLimit.State String}

private theorem charged_price {n cost : Nat} (hn : max n 1 = cost) :
    charged state request limiter n =
      RateLimit.charge state.rateLimiter limiter request.now request.identity.bucketKey cost := by
  rw [charged, ← hn, RateLimit.charge_max]

/-- The world after a charge has the limiter after it. -/
theorem charge_log {n cost : Nat} (hn : max n 1 = cost) (effects : List Effect) :
    (World.charge ⟨limiter, []⟩ state request n).log effects =
      ⟨afterCharge state request limiter cost, .charge request.identity.bucketKey n :: effects⟩ := by
  rw [World.charge, World.log, afterCharge, charged_price hn]
  rfl

/-- A request that stops at its charge. -/
theorem lawful_of_stopped {endpoint : Endpoint} {body : Bytes} {n : Nat} (hb : readBody state request = .ok body)
    (hn : max n 1 = price (requested state endpoint body)) :
    Lawful state request endpoint limiter ((World.charge ⟨limiter, []⟩ state request n).log [.respond]) := by
  rw [charge_log hn]
  exact .charged hb hn

private theorem lawful_of_charge {endpoint : Endpoint} {body : Bytes} {n : Nat} {program : Unit → Handler Response}
    (hb : readBody state request = .ok body) (hn : max n 1 = price (requested state endpoint body))
    (h : (charged state request limiter n).1 = .ok () →
      Lawful state request endpoint limiter
        (conclude (exec (program ()) (World.charge ⟨limiter, []⟩ state request n))).2) :
    Lawful state request endpoint limiter
      (conclude (exec (chargeRateLimit state request n >>= program) ⟨limiter, []⟩)).2 := by
  cases hc : (charged state request limiter n).1 with
  | ok u =>
    rw [exec_charge_ok _ _ _ _ hc]
    exact h hc
  | error exceeded =>
    rw [exec_charge_error _ _ _ _ hc]
    exact lawful_of_stopped hb hn

/-- A handler begins with its body and does nothing without it. -/
theorem lawful_of_read {endpoint : Endpoint} {program : Bytes → Handler Response}
    (h : ∀ body, readBody state request = .ok body →
      Lawful state request endpoint limiter (conclude (exec (program body) ⟨limiter, []⟩)).2) :
    Lawful state request endpoint limiter
      (conclude (exec (lift (readBody state request) >>= program) ⟨limiter, []⟩)).2 := by
  cases hb : readBody state request with
  | error e => exact .unread hb
  | ok body => exact h body hb

/-- A body that asks for nothing still costs one. -/
theorem lawful_of_rejected {endpoint : Endpoint} {body : Bytes} {e : AppError}
    (hb : readBody state request = .ok body) (hn : max 1 1 = price (requested state endpoint body)) :
    Lawful state request endpoint limiter
      (conclude (exec (chargeRateLimit state request 1 >>= fun _ => (throw e : Handler Response)) ⟨limiter, []⟩)).2 :=
  lawful_of_charge hb hn fun _ => lawful_of_stopped hb hn

/-- From the acquisition on: the executor is called once, its lease is released, and
whatever follows renders the response. -/
theorem lawful_of_acquire {endpoint : Endpoint} {body : Bytes} {n : Nat} {commands : List RedisCommand} {α : Type}
    {operation : Operation} {result : α} {program : α → Handler Response}
    (hb : readBody state request = .ok body) (hr : requested state endpoint body = .ok commands)
    (hn : max n 1 = price (.ok commands)) (hc : (charged state request limiter n).1 = .ok ())
    (hp : Passes state request endpoint commands) (ho : operation.commands = allowed state request commands)
    (hne : operation.commands ≠ []) (hq : ∀ a, Renders (program a)) :
    Lawful state request endpoint limiter
      (conclude (exec (acquire state request >>= fun _ => callAndRelease operation result >>= program)
        (World.charge ⟨limiter, []⟩ state request n))).2 := by
  rw [charged_price hn] at hc
  cases ha : request.acquired with
  | ok u =>
    rw [exec_acquire_ok _ _ _ _ ha, exec_callAndRelease, hq, log_log, log_log, charge_log hn]
    exact .called hb hr hn hc hp ha ho hne
  | error e =>
    rw [exec_acquire_error _ _ _ _ ha, conclude, log_log, charge_log hn]
    exact .refused hb hr hn hc hp (by rw [ha]; exact nofun)

theorem passes_iff {command : RedisCommand} :
    passes state request command = true ↔ check state request command = .ok () := by
  rw [passes]
  cases check state request command with
  | ok u => exact ⟨fun _ => rfl, fun _ => rfl⟩
  | error e => exact ⟨nofun, nofun⟩

theorem allowed_of_all {commands : List RedisCommand} (h : ∀ command ∈ commands, passes state request command) :
    allowed state request commands = commands.map Compat.normalize := by
  rw [allowed, List.filter_eq_self.mpr h]

/-- A pipeline that sends anything passes. -/
theorem passes_of_allowed {commands : List RedisCommand} (h : allowed state request commands ≠ []) :
    Passes state request .pipeline commands := by
  obtain ⟨sent, hm⟩ := List.exists_mem_of_ne_nil _ h
  obtain ⟨command, hc, -⟩ := List.mem_map.mp hm
  exact ⟨command, (List.mem_filter.mp hc).1, (List.mem_filter.mp hc).2⟩

private theorem command_lawful :
    Lawful state request .command limiter (conclude (exec (command state request) ⟨limiter, []⟩)).2 := by
  apply lawful_of_read
  intro body hb
  cases hp : Parse.command (state.present body) state.cfg.server.maxRequestElements with
  | error error => exact lawful_of_rejected hb (by rw [requested, hp]; rfl)
  | ok command =>
    have hr : requested state .command body = .ok [command] := by rw [requested, hp]; rfl
    have hn : max 1 1 = price (requested state .command body) := by rw [hr]; rfl
    apply lawful_of_charge hb hn
    intro hc
    cases hk : check state request command with
    | error e => exact lawful_of_stopped hb hn
    | ok u =>
      have hpass : ∀ c ∈ [command], passes state request c := by
        intro c hm
        obtain rfl := List.mem_singleton.mp hm
        exact passes_iff.mpr hk
      have ho : (Operation.execute (Compat.normalize command)).commands = allowed state request [command] := by
        rw [allowed_of_all hpass]
        rfl
      apply lawful_of_acquire hb hr (hr ▸ hn) hc hpass ho (List.cons_ne_nil _ _)
      intro result
      exact renders_lift_bind fun _ => renders_lift_bind fun _ => renders_intoResponse _

private theorem multiExec_lawful :
    Lawful state request .multiExec limiter (conclude (exec (multiExec state request) ⟨limiter, []⟩)).2 := by
  apply lawful_of_read
  intro body hb
  cases hp : parseBatch state body with
  | error error => exact lawful_of_rejected hb (by rw [requested, hp]; rfl)
  | ok commands =>
    have hr : requested state .multiExec body = .ok commands := hp
    dsimp only
    split
    · rename_i he
      exact lawful_of_rejected hb (by rw [hr, he]; rfl)
    · rename_i hne
      have hn : max commands.length 1 = price (requested state .multiExec body) := by rw [hr, max_comm]; rfl
      apply lawful_of_charge hb hn
      intro hc
      cases hk : commands.forM (check state request) with
      | error e => exact lawful_of_stopped hb hn
      | ok u =>
        have hpass : ∀ c ∈ commands, passes state request c := fun c hm => passes_iff.mpr (forM_eq_ok.mp hk c hm)
        have ho : (Operation.transaction (commands.map Compat.normalize)).commands = allowed state request commands := by
          rw [allowed_of_all hpass]
          rfl
        apply lawful_of_acquire hb hr (hr ▸ hn) hc hpass ho (by simpa [Operation.commands] using hne)
        intro results
        exact renders_lift_bind fun _ => renders_lift_bind fun _ => renders_intoResponse _

def denial (state : AppState) (request : Request) (command : RedisCommand) : Option Slot :=
  match check state request command with
  | .error (.forbidden message) => some (.error message)
  | _ => none

theorem check_invalid {command : RedisCommand} :
    check state request command = .error .invalidCommand ↔ command.name = "" :=
  Acl.check_invalid_iff

theorem sift_ok {commands : List RedisCommand} (h : ∀ command ∈ commands, command.name ≠ "") :
    sift state request commands = .ok (allowed state request commands, commands.map (denial state request)) := by
  induction commands with
  | nil => rfl
  | cons command commands ih =>
    have ih := ih fun c hc => h c (List.mem_cons_of_mem _ hc)
    rw [sift, allowed, List.filter_cons, List.map_cons, denial, passes]
    cases hk : check state request command with
    | ok u => rw [ih]; rfl
    | error e =>
      cases e with
      | forbidden message => rw [ih]; rfl
      | invalidCommand => exact absurd (check_invalid.mp hk) (h command List.mem_cons_self)

theorem sift_error {commands : List RedisCommand} (h : ∃ command ∈ commands, command.name = "") :
    sift state request commands = .error (.badRequest "Invalid command") := by
  induction commands with
  | nil => obtain ⟨c, hc, -⟩ := h; cases hc
  | cons command commands ih =>
    rw [sift]
    by_cases hn : command.name = ""
    · rw [check_invalid.mpr hn]
      rfl
    · obtain ⟨c, hc, he⟩ := h
      have ih := ih ⟨c, (List.mem_cons.mp hc).resolve_left (fun hcc => hn (hcc ▸ he)), he⟩
      cases hk : check state request command with
      | ok u => rw [ih]; rfl
      | error e =>
        cases e with
        | forbidden message => rw [ih]; rfl
        | invalidCommand => exact absurd (check_invalid.mp hk) hn

section RunPipeline
variable {commands : List RedisCommand} (w : World)

theorem conclude_runPipeline_invalid (h : ∃ command ∈ commands, command.name = "") :
    conclude (exec (runPipeline state request commands) w) =
      (.error (.badRequest "Invalid command"), w.log [.respond]) := by
  rw [runPipeline, sift_error h, exec_lift_error, conclude]

/-- What is left of a pipeline once the names are known to be there. An empty
pipeline is an instance: it has no entries to fill. -/
theorem exec_runPipeline (h : ∀ command ∈ commands, command.name ≠ "") :
    exec (runPipeline state request commands) w =
      exec (do
        let results ← runAllowed state request (allowed state request commands)
        let response ← lift (fill request state.cfg.server.load.maxResponseBytes
          (commands.map (denial state request)) results)
        intoResponse (.slots response)) w := by
  rw [runPipeline, sift_ok h, exec_lift_ok]
  cases commands with
  | nil => rfl
  | cons command commands => rfl

variable (h : ∀ command ∈ commands, command.name ≠ "")
include h

theorem conclude_runPipeline_denied (ha : allowed state request commands = []) :
    conclude (exec (runPipeline state request commands) w) =
      ((fill request state.cfg.server.load.maxResponseBytes (commands.map (denial state request)) []).map .slots,
        w.log [.respond]) := by
  rw [exec_runPipeline w h, ha, runAllowed_nil, exec_pure_bind, conclude_lift_respond]

theorem conclude_runPipeline_refused (ha : allowed state request commands ≠ []) {e : AcquireError}
    (he : request.acquired = .error e) :
    conclude (exec (runPipeline state request commands) w) =
      (.error (mapAcquireError state e), w.log [.acquire request.identity.pool, .respond]) := by
  rw [exec_runPipeline w h, runAllowed_of_ne _ _ ha, bind_assoc, exec_acquire_error _ _ _ _ he, conclude, log_log]
  rfl

theorem conclude_runPipeline_called (ha : allowed state request commands ≠ []) (he : request.acquired = .ok ()) :
    conclude (exec (runPipeline state request commands) w) =
      ((fill request state.cfg.server.load.maxResponseBytes (commands.map (denial state request))
          (request.pipeline (allowed state request commands))).map .slots,
        w.log [.acquire request.identity.pool, .call (.pipeline (allowed state request commands)), .release, .respond]) := by
  rw [exec_runPipeline w h, runAllowed_of_ne _ _ ha, bind_assoc, exec_acquire_ok _ _ _ _ he, exec_callAndRelease,
    conclude_lift_respond, log_log, log_log]
  rfl

end RunPipeline

private theorem pipeline_lawful :
    Lawful state request .pipeline limiter (conclude (exec (pipeline state request) ⟨limiter, []⟩)).2 := by
  apply lawful_of_read
  intro body hb
  cases hp : parseBatch state body with
  | error error => exact lawful_of_rejected hb (by rw [requested, hp]; rfl)
  | ok commands =>
    have hr : requested state .pipeline body = .ok commands := hp
    have hn : max commands.length 1 = price (requested state .pipeline body) := by rw [hr, max_comm]; rfl
    apply lawful_of_charge hb hn
    intro hc
    by_cases hi : ∃ command ∈ commands, command.name = ""
    · rw [conclude_runPipeline_invalid _ hi]
      exact lawful_of_stopped hb hn
    · have hnames : ∀ command ∈ commands, command.name ≠ "" := fun c hm he => hi ⟨c, hm, he⟩
      by_cases ha : allowed state request commands = []
      · rw [conclude_runPipeline_denied _ hnames ha]
        exact lawful_of_stopped hb hn
      · have hpass := passes_of_allowed ha
        have hcost : max commands.length 1 = price (.ok commands) := hr ▸ hn
        rw [charged_price hcost] at hc
        cases he : request.acquired with
        | error e =>
          rw [conclude_runPipeline_refused _ hnames ha he, charge_log hcost]
          exact .refused hb hr hcost hc hpass (by rw [he]; exact nofun)
        | ok u =>
          rw [conclude_runPipeline_called _ hnames ha he, charge_log hcost]
          exact .called hb hr hcost hc hpass he rfl ha

/-- Every request of every endpoint keeps the order and the accounting. -/
theorem admission_order (state : AppState) (request : Request) (endpoint : Endpoint)
    (limiter : RateLimit.State String) :
    Lawful state request endpoint limiter (serve state request endpoint limiter).2 := by
  cases endpoint with
  | command => exact command_lawful
  | pipeline => exact pipeline_lawful
  | multiExec => exact multiExec_lawful

end Proof

end Srh.Http
