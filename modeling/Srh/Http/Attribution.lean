import Srh.Http.Admission
import Srh.Lib.Merge

/-! Which result stands in which entry of a pipeline response. -/
namespace Srh.Http
open Srh.Lib Srh.Domain Srh.Ports

section Entries
variable (state : AppState) (request : Request)

def entry : CommandResult → Option Slot
  | .ok value => some (.result value (encoding request))
  | .error (.redis message) => some (.error message)
  | .error .timeout => some (.error "Redis command timed out")
  | .error (.transport _) => some (.error "Internal server error")
  | .error .responseTooLarge => none

/-- The place of a command among those that may run. -/
def place (commands : List RedisCommand) (i : Nat) : Nat := rank (passes state request) commands i

/-- Every entry is the denial of its own command or the result of that command. -/
structure Attributes (commands : List RedisCommand) (results : List CommandResult) (entries : List Slot) : Prop where
  length_results : results.length = (allowed state request commands).length
  length : entries.length = commands.length
  denied : ∀ (i : Nat) (command : RedisCommand) (message : String), commands[i]? = some command →
    check state request command = .error (.forbidden message) → entries[i]? = some (.error message)
  rendered : ∀ (i : Nat) (command : RedisCommand), commands[i]? = some command →
    check state request command = .ok () → ∃ result slot,
      (allowed state request commands)[place state request commands i]? = some (Compat.normalize command) ∧
      results[place state request commands i]? = some result ∧ entry request result = some slot ∧
      entries[i]? = some slot

end Entries

section Fill
variable {state : AppState} {request : Request}

private theorem renderResult_entry {budget left : Nat} {result : CommandResult} {slot : Slot}
    (h : renderResult request budget result = .ok (slot, left)) : entry request result = some slot := by
  cases result with
  | ok value =>
    obtain ⟨rest, -, hr⟩ := bind_eq_ok.mp h
    cases hr
    rfl
  | error e =>
    cases e with
    | responseTooLarge => cases h
    | _ => cases h; rfl

private theorem fill_merges {budget : Nat} {slots : List (Option Slot)} {results : List CommandResult} {entries : List Slot}
    (h : fill request budget slots results = .ok entries) :
    Merges (fun result slot => entry request result = some slot) slots results entries := by
  fun_induction fill request budget slots results generalizing entries with
  | case1 => cases h; exact .nil
  | case2 => cases h
  | case3 budget denied slots results ih =>
    obtain ⟨rest, hrest, he⟩ := bind_eq_ok.mp h
    cases he
    exact .keep (ih hrest)
  | case4 => cases h
  | case5 budget slots result results ih =>
    obtain ⟨⟨slot, left⟩, hslot, h⟩ := bind_eq_ok.mp h
    obtain ⟨rest, hrest, he⟩ := bind_eq_ok.mp h
    cases he
    exact .fill (renderResult_entry hslot) (ih _ hrest)

variable {commands : List RedisCommand}

/-- A command with a name is denied or passes. -/
theorem denial_isNone {command : RedisCommand} (h : command.name ≠ "") :
    (denial state request command).isNone = passes state request command := by
  rw [denial, passes]
  cases hk : check state request command with
  | ok u => rfl
  | error e =>
    cases e with
    | forbidden message => rfl
    | invalidCommand => exact absurd (check_invalid.mp hk) h

private theorem attributes_of_fill (hn : ∀ command ∈ commands, command.name ≠ "") {budget : Nat} {results : List CommandResult}
    {entries : List Slot} (h : fill request budget (commands.map (denial state request)) results = .ok entries) :
    Attributes state request commands results entries := by
  have hm := fill_merges h
  have hp : ∀ command ∈ commands, (Option.isNone ∘ denial state request) command = passes state request command :=
    fun command hc => denial_isNone (hn command hc)
  refine ⟨?_, ?_, ?_, ?_⟩
  · rw [hm.length_values, List.countP_map, allowed, List.length_map, ← List.countP_eq_length_filter]
    exact List.countP_congr fun command hc => by rw [hp command hc]
  · rw [hm.length, List.length_map]
  · intro i command message hi hk
    apply hm.at_keep
    rw [List.getElem?_map, hi, Option.map_some, denial, hk]
  · intro i command hi hk
    have hslot : (commands.map (denial state request))[i]? = some none := by
      rw [List.getElem?_map, hi, Option.map_some, denial, hk]
    obtain ⟨result, slot, hb, hc, hr⟩ := hm.at_fill hslot
    rw [rank_map, rank_congr hp] at hb
    refine ⟨result, slot, ?_, hb, hr, hc⟩
    rw [allowed, List.getElem?_map, place, filter_rank hi (passes_iff.mpr hk), Option.map_some]

end Fill

section Pipeline
variable (state : AppState) (request : Request)

def executorResults (commands : List RedisCommand) : List CommandResult :=
  if allowed state request commands = [] then [] else request.pipeline (allowed state request commands)

structure Served (commands : List RedisCommand) (out : Except AppError Response × World) : Prop where
  acquires : .acquire request.identity.pool ∈ out.2.trace ↔ allowed state request commands ≠ []
  calls : ∀ operation, .call operation ∈ out.2.trace ↔
    operation = .pipeline (allowed state request commands) ∧ allowed state request commands ≠ [] ∧
      request.acquired = .ok ()
  attributes : ∀ response, out.1 = .ok response →
    ∃ entries, response = .slots entries ∧ Attributes state request commands (executorResults state request commands) entries
  mismatch : (executorResults state request commands).length ≠ (allowed state request commands).length →
    ∃ e, out.1 = .error e

/-- The request fails with the given reply and acquires nothing. -/
def Refuses (reply : AppError.Reply) (out : Except AppError Response × World) : Prop :=
  (∃ e : AppError, out.1 = .error e ∧ e.intoResponse = reply) ∧ ∀ pool, .acquire pool ∉ out.2.trace

end Pipeline

section Serve
variable {state : AppState} {request : Request} {limiter : RateLimit.State String} {body : Bytes}
  {commands : List RedisCommand}

theorem serve_pipeline (hb : readBody state request = .ok body) (hp : parseBatch state body = .ok commands)
    (hc : (charged state request limiter commands.length).1 = .ok ()) :
    serve state request .pipeline limiter =
      conclude (exec (runPipeline state request commands) (World.charge ⟨limiter, []⟩ state request commands.length)) := by
  have h : exec (pipeline state request) ⟨limiter, []⟩ =
      exec (runPipeline state request commands) (World.charge ⟨limiter, []⟩ state request commands.length) := by
    rw [pipeline, hb, exec_lift_ok, hp]
    exact exec_charge_ok _ state request (fun _ => runPipeline state request commands) hc
  rw [serve, handler, h]

/-- Entries filled from the executor's results are attributed; too few or too many
results never make a response. -/
theorem served_of_fill (hn : ∀ command ∈ commands, command.name ≠ "") {budget : Nat} {w : World}
    (ha : .acquire request.identity.pool ∈ w.trace ↔ allowed state request commands ≠ [])
    (hc : ∀ operation, .call operation ∈ w.trace ↔
      operation = .pipeline (allowed state request commands) ∧ allowed state request commands ≠ [] ∧
        request.acquired = .ok ()) :
    Served state request commands
      ((fill request budget (commands.map (denial state request)) (executorResults state request commands)).map
        Response.slots, w) := by
  cases hf : fill request budget (commands.map (denial state request)) (executorResults state request commands) with
  | error e => exact ⟨ha, hc, nofun, fun _ => ⟨e, rfl⟩⟩
  | ok entries =>
    have hat := attributes_of_fill hn hf
    refine ⟨ha, hc, ?_, fun hl => absurd hat.length_results hl⟩
    rintro response ⟨⟩
    exact ⟨entries, rfl, hat⟩

private theorem runPipeline_served (hn : ∀ command ∈ commands, command.name ≠ "") (n : Nat) :
    Served state request commands
      (conclude (exec (runPipeline state request commands) (World.charge ⟨limiter, []⟩ state request n))) := by
  by_cases ha : allowed state request commands = []
  · rw [conclude_runPipeline_denied _ hn ha, show [] = executorResults state request commands from (if_pos ha).symm]
    apply served_of_fill hn
    · simp [ha, World.charge, World.log]
    · simp [ha, World.charge, World.log]
  · cases he : request.acquired with
    | error e =>
      rw [conclude_runPipeline_refused _ hn ha he]
      refine ⟨?_, ?_, ?_, fun _ => ⟨_, rfl⟩⟩
      · simp [ha, World.charge, World.log]
      · simp [he, World.charge, World.log]
      · intro response h
        cases h
    | ok u =>
      rw [conclude_runPipeline_called _ hn ha he,
        show request.pipeline (allowed state request commands) = executorResults state request commands from
          (if_neg ha).symm]
      apply served_of_fill hn
      · simp [ha, World.charge, World.log]
      · simp [ha, he, World.charge, World.log]

theorem serve_pipeline_limited (hb : readBody state request = .ok body) (hp : parseBatch state body = .ok commands)
    {exceeded : RateLimit.RateLimitExceeded}
    (hc : (charged state request limiter commands.length).1 = .error exceeded) :
    serve state request .pipeline limiter =
      (.error (.rateLimited exceeded.retryAfterSecs),
        (World.charge ⟨limiter, []⟩ state request commands.length).log [.respond]) := by
  have h : exec (pipeline state request) ⟨limiter, []⟩ =
      (.error (.rateLimited exceeded.retryAfterSecs), World.charge ⟨limiter, []⟩ state request commands.length) := by
    rw [pipeline, hb, exec_lift_ok, hp]
    exact exec_charge_error _ state request (fun _ => runPipeline state request commands) hc
  rw [serve, handler, h, conclude]

/-- Every pipeline that is parsed is answered 429 by the limiter, 400 for an empty
name, both before anything is acquired, or else the executor gets exactly the
allowed commands and each entry answers its own command. -/
theorem pipeline_attribution (state : AppState) (request : Request) (limiter : RateLimit.State String) (body : Bytes)
    (commands : List RedisCommand) (hb : readBody state request = .ok body)
    (hp : parseBatch state body = .ok commands) :
    (∀ exceeded, (charged state request limiter commands.length).1 = .error exceeded →
      Refuses ⟨429, "Rate limit exceeded", some exceeded.retryAfterSecs⟩ (serve state request .pipeline limiter)) ∧
    ((charged state request limiter commands.length).1 = .ok () → (∃ command ∈ commands, command.name = "") →
      Refuses ⟨400, "Invalid command", none⟩ (serve state request .pipeline limiter)) ∧
    ((charged state request limiter commands.length).1 = .ok () → (∀ command ∈ commands, command.name ≠ "") →
      Served state request commands (serve state request .pipeline limiter)) := by
  refine ⟨?_, ?_, ?_⟩
  · intro exceeded hc
    rw [serve_pipeline_limited hb hp hc]
    exact ⟨⟨_, rfl, rfl⟩, fun pool => by simp [World.charge, World.log]⟩
  · intro hc hi
    rw [serve_pipeline hb hp hc, conclude_runPipeline_invalid _ hi]
    exact ⟨⟨_, rfl, rfl⟩, fun pool => by simp [World.charge, World.log]⟩
  · intro hc hn
    rw [serve_pipeline hb hp hc]
    exact runPipeline_served hn commands.length

end Serve

section Sample

def sampleCommands : List RedisCommand := [⟨"GET", [Ascii.bytes "a"]⟩, ⟨"FLUSHALL", []⟩, ⟨"GET", [Ascii.bytes "b"]⟩]

def sampleNode (command : List String) : Parse.Node :=
  .array (command.foldr (fun text items => .item (.string text) items) .close)

def sampleState : AppState where
  cfg := .fromEnvMode (Vector.replicate 32 0) "redis://localhost:6379" none
  rateLimiter := .new 0 (by decide)
  sha256 _ := Vector.replicate 32 0
  present _ := ⟨.array (.item (sampleNode ["GET", "a"]) (.item (sampleNode ["FLUSHALL"])
    (.item (sampleNode ["GET", "b"]) .close))), false⟩

def sampleRequest : Request where
  identity := ⟨"subject", "bucket", "default", false, false, false, none, ∅, ∅, none⟩
  upload := .complete []
  encodingHeader := none
  now := 0
  acquired := .ok ()
  execute _ := .ok .nil
  pipeline _ := [.ok .nil, .ok (.int 1)]
  transaction _ := .ok []

theorem pipeline_attribution_sample : ∃ entries,
    (serve sampleState sampleRequest .pipeline .empty).1 = .ok (.slots entries) ∧
      Attributes sampleState sampleRequest sampleCommands [.ok .nil, .ok (.int 1)] entries := by
  have h := (pipeline_attribution sampleState sampleRequest .empty [] sampleCommands rfl rfl).2.2 rfl (by decide)
  obtain ⟨entries, he, ha⟩ := h.attributes _ rfl
  exact ⟨entries, congrArg Except.ok he, ha⟩

end Sample
end Srh.Http
