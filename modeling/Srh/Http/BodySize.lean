import Srh.Domain.Amplification
import Srh.Http.Answer
import Srh.Http.Attribution

/-! How large the body of a successful response gets for its response budget. -/
namespace Srh.Http
open Srh.Lib Srh.Domain Srh.Ports

section Single

/-- The envelope adds its key, its colon and its braces. -/
theorem size_envelope (value : RespValue) (encoding : Convert.Encoding) :
    (Response.envelope value encoding).toJson.size = (Convert.responseJson encoding value).size + 11 := by
  have hkey : String.utf8Len ('\x7b' :: Json.quote "result" ++ [':']) = 10 := by decide
  have hwrite : (Response.envelope value encoding).toJson.write =
      ('\x7b' :: Json.quote "result" ++ [':']) ++ ((Convert.responseJson encoding value).write ++ ['\x7d']) := by
    rw [Response.toJson, Json.write_object, Json.writeMembers_singleton]
    simp only [List.cons_append, List.append_assoc, List.nil_append]
  have hclose : String.utf8Len ['\x7d'] = 1 := by decide
  rw [Json.size, hwrite, String.utf8Len_append, hkey, String.utf8Len_append, hclose, Json.size]
  omega

/-- An envelope holds a value that the budget paid for. -/
theorem renderEnvelope_ok {state : AppState} {request : Request} {result : CommandResult} {response : Response}
    (h : renderEnvelope state request result = .ok response) :
    ∃ value rest, result = .ok value ∧
      Convert.chargeResponseBudget value (encoding request) state.cfg.server.load.maxResponseBytes = .ok rest ∧
      response = .envelope value (encoding request) := by
  obtain ⟨value, hvalue, h⟩ := bind_eq_ok.mp h
  obtain ⟨rest, hrest, h⟩ := bind_eq_ok.mp h
  cases h
  exact ⟨value, rest, mapError_eq_ok.mp hvalue, mapError_eq_ok.mp hrest, rfl⟩

/-- The compact text of a reply is at most six times what was charged for it, and so
the body of a single command at most six times the whole budget, envelope apart. -/
theorem rendering_at_most_sixfold :
    (∀ (value : RespValue) (encoding : Convert.Encoding) (budget rest : Nat), budget < 2 ^ 64 → Convert.Int64s value →
      Convert.chargeResponseBudget value encoding budget = .ok rest →
      (Convert.utf8Bytes (Convert.responseJson encoding value).toText).length ≤ 6 * (budget - rest)) ∧
    ∀ (state : AppState) (request : Request) (limiter : RateLimit.State String) (response : Response),
      state.cfg.server.load.maxResponseBytes < 2 ^ 64 →
      (∀ command value, request.execute command = .ok value → Convert.Int64s value) →
      (serve state request .command limiter).1 = .ok response →
      (Convert.utf8Bytes response.toJson.toText).length ≤ 6 * state.cfg.server.load.maxResponseBytes + 11 := by
  constructor
  · intro value encoding budget rest hb hv h
    rw [Convert.length_toText]
    exact Convert.size_le_of_charged hb hv h
  · intro state request limiter response hb hv h
    obtain ⟨command, h⟩ := serve_command_ok state request limiter h
    obtain ⟨value, rest, hvalue, hrest, rfl⟩ := renderEnvelope_ok h
    have hsize := Convert.size_le_of_charged hb (hv _ value hvalue) hrest
    rw [Convert.length_toText, size_envelope]
    omega

def getState : AppState := { sampleState with present := fun _ => ⟨sampleNode ["GET", "a"], false⟩ }

def controlRequest : Request := { sampleRequest with execute := fun _ => .ok (.bulk [1]) }

theorem rendering_at_most_sixfold_control :
    (Convert.utf8Bytes (Convert.responseJson .none (.array [.bulk [1], .int (-2 ^ 63)])).toText).length ≤ 6 * (25 - 0) ∧
    ∃ response, (serve getState controlRequest .command .empty).1 = .ok response ∧
      (Convert.utf8Bytes response.toJson.toText).length ≤ 6 * getState.cfg.server.load.maxResponseBytes + 11 := by
  have hcharge : Convert.chargeResponseBudget (.array [.bulk [1], .int (-2 ^ 63)]) .none 25 = .ok 0 := by decide
  have hints : Convert.Int64s (.array [.bulk [1], .int (-2 ^ 63)]) := ⟨trivial, ⟨by decide, by decide⟩, trivial⟩
  refine ⟨rendering_at_most_sixfold.1 _ _ 25 0 (by decide) hints hcharge, .envelope (.bulk [1]) .none, rfl, ?_⟩
  apply rendering_at_most_sixfold.2 getState controlRequest .empty _ (by decide) _ rfl
  intro command value h
  cases h
  trivial

end Single

section Batches

def AppState.withBudget (state : AppState) (budget : Nat) : AppState :=
  { state with
    cfg := { state.cfg with
      server := { state.cfg.server with load := { state.cfg.server.load with maxResponseBytes := budget } } } }

section Results
variable (request : Request)

/-- The bytes of the strings that the entry of a result takes from Redis. The texts
for a timeout and a lost connection are the server's own. -/
def backendText (result : CommandResult) : Nat :=
  match result with
  | .ok _ | .error (.redis _) => (entry request result).elim 0 fun slot => Convert.textLength (Convert.strings slot.toJson)
  | _ => 0

def errorText : CommandResult → Nat
  | .error (.redis message) => (Convert.utf8Bytes message).length
  | _ => 0

def valueNodes : CommandResult → Nat
  | .ok value => Convert.nodes value
  | _ => 0

def resultCost : CommandResult → Nat
  | .ok value => Convert.cost (encoding request) value
  | _ => 0

/-- Of its text and its nodes, the message of an error is the part not charged. -/
theorem backendText_add_nodes (result : CommandResult) :
    backendText request result + Convert.nodeCost * valueNodes result = resultCost request result + errorText result := by
  cases result with
  | ok value =>
    have hstrings : Convert.strings (Slot.result value (encoding request)).toJson =
        Convert.strings (Convert.responseJson (encoding request) value) := by
      rw [Slot.toJson, Convert.strings, Convert.stringsMembers, Convert.stringsMembers, List.append_nil]
    change Convert.textLength (Convert.strings (Slot.result value (encoding request)).toJson) +
      Convert.nodeCost * Convert.nodes value = Convert.cost (encoding request) value + 0
    rw [hstrings, Convert.cost]
    omega
  | error e =>
    cases e with
    | redis message =>
      change Convert.textLength [message] + 0 = 0 + (Convert.utf8Bytes message).length
      rw [Convert.textLength_singleton]
      omega
    | _ => rfl

private theorem sum_backendText (results : List CommandResult) :
    (results.map (backendText request)).sum + Convert.nodeCost * (results.map valueNodes).sum =
      (results.map (resultCost request)).sum + (results.map errorText).sum := by
  induction results with
  | nil => rfl
  | cons result results ih =>
    have h := backendText_add_nodes request result
    simp only [List.map_cons, List.sum_cons, Nat.mul_add]
    omega

end Results

section Budget
variable {request : Request} {budget other left : Nat}

/-- A result is charged its cost, and any budget that has as much renders it alike. -/
theorem renderResult_budget {result : CommandResult} {slot : Slot} (hb : budget < 2 ^ 64) (ho : other < 2 ^ 64)
    (h : renderResult request budget result = .ok (slot, left)) :
    left + resultCost request result = budget ∧
      (resultCost request result ≤ other →
        renderResult request other result = .ok (slot, other - resultCost request result)) := by
  cases result with
  | ok value =>
    obtain ⟨rest, hrest, h⟩ := bind_eq_ok.mp h
    cases h
    have hspend := Convert.chargeWithinDepth_spends (encoding request) Convert.maxDepth value
    obtain ⟨hdepth, hsum⟩ := (hspend.eq_ok hb).mp (mapError_eq_ok.mp hrest)
    refine ⟨hsum, fun hle => ?_⟩
    have hother : chargeResponseBudget request value other = .ok (other - Convert.cost (encoding request) value) :=
      mapError_eq_ok.mpr ((hspend.eq_ok ho).mpr ⟨hdepth, Nat.sub_add_cancel hle⟩)
    rw [renderResult, hother]
    rfl
  | error e =>
    cases e with
    | responseTooLarge => cases h
    | _ =>
      cases h
      exact ⟨rfl, fun _ => rfl⟩

/-- Entries are filled from a budget exactly when it has the costs together. -/
theorem fill_budget {slots : List (Option Slot)} {results : List CommandResult} {entries : List Slot}
    (hb : budget < 2 ^ 64) (ho : other < 2 ^ 64) (h : fill request budget slots results = .ok entries) :
    (results.map (resultCost request)).sum ≤ budget ∧
      ((results.map (resultCost request)).sum ≤ other → fill request other slots results = .ok entries) := by
  fun_induction fill request budget slots results generalizing other entries with
  | case1 =>
    cases h
    exact ⟨Nat.zero_le _, fun _ => by rw [fill]⟩
  | case2 => cases h
  | case3 budget denied slots results ih =>
    obtain ⟨rest, hrest, he⟩ := bind_eq_ok.mp h
    cases he
    obtain ⟨hle, hsame⟩ := ih hb ho hrest
    refine ⟨hle, fun hother => ?_⟩
    rw [fill, hsame hother]
    rfl
  | case4 => cases h
  | case5 budget slots result results ih =>
    obtain ⟨⟨slot, left⟩, hslot, h⟩ := bind_eq_ok.mp h
    obtain ⟨rest, hrest, he⟩ := bind_eq_ok.mp h
    cases he
    obtain ⟨hspent, hrender⟩ := renderResult_budget hb ho hslot
    rw [List.map_cons, List.sum_cons]
    have hleft : left < 2 ^ 64 := by omega
    have hrestOther : other - resultCost request result < 2 ^ 64 := by omega
    obtain ⟨hle, hsame⟩ := ih left hleft hrestOther hrest
    refine ⟨by omega, fun hother => ?_⟩
    rw [fill, hrender (by omega)]
    change (fill request _ slots results >>= _) = _
    rw [hsame (by omega)]
    rfl

end Budget

section Serve
variable (state : AppState) (request : Request) (limiter : RateLimit.State String) (batch : Batch)

def replies : List CommandResult :=
  match gather state request limiter batch with
  | .ok gathered => gathered.2
  | .error _ => []

variable {state request limiter batch}

private theorem sift_withBudget (budget : Nat) (commands : List RedisCommand) :
    sift (state.withBudget budget) request commands = sift state request commands := by
  induction commands with
  | nil => rfl
  | cons command commands ih =>
    rw [sift, sift, ih]
    rfl

/-- What is gathered does not depend on the budget. -/
theorem gather_withBudget (budget : Nat) :
    gather (state.withBudget budget) request limiter batch = gather state request limiter batch := by
  simp only [gather, gatherPipeline, sift_withBudget]
  rfl

/-- A response is filled from the replies, whatever the budget. -/
theorem serve_withBudget {budget : Nat} {response : Response} :
    (serve (state.withBudget budget) request batch.endpoint limiter).1 = .ok response ↔
      ∃ slots entries, gather state request limiter batch = .ok (slots, replies state request limiter batch) ∧
        fill request budget slots (replies state request limiter batch) = .ok entries ∧ response = .slots entries := by
  rw [serve_batch, gather_withBudget, bind_eq_ok, replies]
  constructor
  · rintro ⟨⟨slots, results⟩, hg, h⟩
    rw [hg]
    cases hf : fill request (state.withBudget budget).cfg.server.load.maxResponseBytes slots results with
    | error e =>
      rw [hf] at h
      cases h
    | ok entries =>
      rw [hf] at h
      cases h
      exact ⟨slots, entries, rfl, hf, rfl⟩
  · rintro ⟨slots, entries, hg, hf, rfl⟩
    rw [hg] at hf
    refine ⟨_, hg, ?_⟩
    change (fill request budget slots _).map Response.slots = _
    rw [hg, hf]
    rfl

/-- The texts that a batch takes from Redis stay within the budget, whatever the
budget under which it is answered, exactly when its error messages are no longer than
what was charged for the nodes of its values: error messages are not charged. -/
theorem batch_text_within_budget_iff (state : AppState) (request : Request) (limiter : RateLimit.State String)
    (batch : Batch)
    (h : ∃ budget < 2 ^ 64, ∃ response, (serve (state.withBudget budget) request batch.endpoint limiter).1 = .ok response) :
    (∀ budget < 2 ^ 64, ∀ response, (serve (state.withBudget budget) request batch.endpoint limiter).1 = .ok response →
      ((replies state request limiter batch).map (backendText request)).sum ≤ budget) ↔
    ((replies state request limiter batch).map errorText).sum ≤
      Convert.nodeCost * ((replies state request limiter batch).map valueNodes).sum := by
  have hsum := sum_backendText request (replies state request limiter batch)
  constructor
  · intro hall
    obtain ⟨budget, hb, response, hr⟩ := h
    obtain ⟨slots, entries, hg, hf, rfl⟩ := serve_withBudget.mp hr
    -- The smallest budget that answers the batch is the sum of its costs.
    obtain ⟨hle, -⟩ := fill_budget hb hb hf
    have hleast := (fill_budget hb (Nat.lt_of_le_of_lt hle hb) hf).2 (Nat.le_refl _)
    have htext := hall _ (Nat.lt_of_le_of_lt hle hb) _ (serve_withBudget.mpr ⟨slots, entries, hg, hleast, rfl⟩)
    omega
  · intro hle budget hb response hr
    obtain ⟨slots, entries, hg, hf, rfl⟩ := serve_withBudget.mp hr
    have hcost := (fill_budget hb hb hf).1
    omega

def errorRequest : Request :=
  { sampleRequest with pipeline := fun _ => [.ok .nil, .error (.redis "ERR value is not an integer or out of range")] }

def shortErrorRequest : Request := { sampleRequest with pipeline := fun _ => [.ok .nil, .error (.redis "ERR")] }

theorem batch_text_within_budget_iff_short :
    (∃ response, (serve (sampleState.withBudget 8) shortErrorRequest Batch.pipeline.endpoint .empty).1 = .ok response) ∧
    ∀ budget < 2 ^ 64, ∀ response,
      (serve (sampleState.withBudget budget) shortErrorRequest Batch.pipeline.endpoint .empty).1 = .ok response →
      ((replies sampleState shortErrorRequest .empty .pipeline).map (backendText shortErrorRequest)).sum ≤ budget :=
  ⟨⟨_, rfl⟩, (batch_text_within_budget_iff sampleState shortErrorRequest .empty .pipeline
    ⟨8, by decide, _, rfl⟩).mpr (by decide)⟩

/-- A budget of eight bytes lets through an error message of forty-three. -/
theorem error_message_exceeds_budget :
    (∃ first second, (serve (sampleState.withBudget 8) errorRequest Batch.pipeline.endpoint .empty).1 =
      .ok (.slots [first, second, .error "ERR value is not an integer or out of range"])) ∧
    ((replies sampleState errorRequest .empty .pipeline).map (backendText errorRequest)).sum = 43 :=
  ⟨⟨_, _, rfl⟩, by decide⟩

end Serve

end Batches
end Srh.Http
