import Srh.Http.Plan

/-! The failures that a handler can answer with, apart from those of the extractor and
the limiter. An internal failure has one cause in a handler: an executor that does not
answer each of its commands. -/
namespace Srh.Http
open Srh.Lib Srh.Domain Srh.Ports

/-- The failures of a handler. Where every command is answered none of them is internal. -/
def Handled (aligned : Prop) : AppError → Prop
  | .unauthorized => False
  | .rateLimited _ => False
  | .authServiceUnavailable => False
  | .internal _ => ¬ aligned
  | _ => True

def Shedding : AcquireError → Prop
  | .overloaded => True
  | .poolOpen _ => True
  | _ => False

/-- The slots of a pipeline are open for the commands that it sends. -/
def Work.Aligned : Work → Prop
  | .pipeline commands slots => slots.countP Option.isNone = commands.length
  | _ => True

section Handled
variable {aligned : Prop} {state : AppState} {request : Request}

private theorem handled_ofAcl (e : Acl.AclError) : Handled aligned (.ofAcl e) := by
  cases e <;> trivial

private theorem handled_mapExecError (e : ExecError) : Handled aligned (mapExecError state e) := by
  cases e <;> trivial

theorem handled_mapAcquireError {e : AcquireError} (h : aligned → Shedding e) : Handled aligned (mapAcquireError state e) := by
  cases e with
  | overloaded => trivial
  | poolOpen retryAfterSecs => trivial
  | _ => exact h

theorem readBody_handled : Fails (Handled aligned) (readBody state request) := by
  intro e he
  rw [readBody] at he
  split at he
  · cases he; trivial
  · cases he; trivial
  · split at he
    · cases he
    · cases he; trivial

private theorem chargeResponseBudget_handled (value : RespValue) (budget : Nat) :
    Fails (Handled aligned) (chargeResponseBudget request value budget) := by
  apply fails_mapError
  intro e
  cases e <;> trivial

private theorem renderResult_handled (budget : Nat) (result : CommandResult) :
    Fails (Handled aligned) (renderResult request budget result) := by
  rcases result with (reason | _ | message | _) | value
  case ok =>
    apply (chargeResponseBudget_handled value budget).bind
    exact fun _ => fails_ok _
  case error.responseTooLarge =>
    intro e he
    cases he
    trivial
  all_goals exact fails_ok _

/-- Filling slots fails internally only if there are more or fewer results than open
slots. -/
theorem fill_handled (budget : Nat) (slots : List (Option Slot)) (results : List CommandResult)
    (h : aligned → slots.countP Option.isNone = results.length) : Fails (Handled aligned) (fill request budget slots results) := by
  fun_induction fill request budget slots results with
  | case1 => exact fails_ok _
  | case2 =>
    intro e he
    cases he
    intro ha
    cases h ha
  | case3 budget denied slots results ih =>
    apply (ih fun ha => _).bind fun _ => fails_ok _
    intro ha
    rw [← h ha, List.countP_cons_of_neg (by simp)]
  | case4 =>
    intro e he
    cases he
    intro ha
    have hc := h ha
    rw [List.countP_cons_of_pos rfl] at hc
    cases hc
  | case5 budget slots result results ih =>
    apply (renderResult_handled budget result).bind
    intro rendered
    apply (ih rendered.2 _).bind fun _ => fails_ok _
    intro ha
    have hc := h ha
    rw [List.countP_cons_of_pos rfl, List.length_cons] at hc
    exact Nat.succ.inj hc

private theorem sift_handled (commands : List RedisCommand) : Fails (Handled aligned) (sift state request commands) := by
  by_cases hi : ∃ command ∈ commands, command.name = ""
  · rw [sift_error hi]
    intro e he
    cases he
    trivial
  · rw [sift_ok fun c hm he => hi ⟨c, hm, he⟩]
    exact fails_ok _

/-- The slots that sifting leaves open are those of the allowed commands. -/
theorem sift_aligned {commands allowed : List RedisCommand} {slots : List (Option Slot)}
    (h : sift state request commands = .ok (allowed, slots)) : slots.countP Option.isNone = allowed.length := by
  by_cases hi : ∃ command ∈ commands, command.name = ""
  · rw [sift_error hi] at h
    cases h
  · rw [sift_ok fun c hm he => hi ⟨c, hm, he⟩] at h
    cases h
    rw [List.countP_map, allowed, List.length_map, ← List.countP_eq_length_filter]
    apply List.countP_congr
    intro command hm
    have hne : check state request command ≠ .error .invalidCommand := fun he => hi ⟨command, hm, check_invalid.mp he⟩
    rw [Function.comp_apply, denial, passes]
    rcases hc : check state request command with (_ | message) | _
    · exact absurd hc hne
    · rfl
    · rfl

/-- Work fails internally only if the executor answers its pipeline with more or fewer
results than it has commands. -/
theorem finish_handled {work : Work}
    (h : aligned → work.Aligned ∧ (request.pipeline work.operation.commands).length = work.operation.commands.length) :
    Fails (Handled aligned) (work.finish state request) := by
  cases work with
  | execute command =>
    apply (fails_mapError handled_mapExecError _).bind
    intro value
    exact (chargeResponseBudget_handled value _).bind fun _ => fails_ok _
  | pipeline commands slots =>
    apply (fill_handled _ _ _ _).map
    intro ha
    exact (h ha).1.trans (h ha).2.symm
  | transaction commands =>
    apply (fails_mapError handled_mapExecError _).bind
    intro results
    rw [renderResults_eq_fill]
    apply (fill_handled _ _ _ _).map
    intro _
    rw [List.countP_map]
    exact List.countP_eq_length.mpr fun _ _ => rfl

structure Next.Guarded (aligned : Prop) (next : Next) : Prop where
  fails : ∀ result, next = .answer result → Fails (Handled aligned) result
  work : ∀ w, next = .work w → w.Aligned

private theorem guarded_answer {result : Except AppError Response} (h : Fails (Handled aligned) result) :
    (Next.answer result).Guarded aligned := by
  constructor
  · rintro _ ⟨⟩
    exact h
  · rintro _ ⟨⟩

private theorem guarded_error {e : AppError} (h : Handled aligned e) : (Next.answer (.error e)).Guarded aligned := by
  apply guarded_answer
  rintro d ⟨⟩
  exact h

private theorem guarded_work {w : Work} (h : w.Aligned) : (Next.work w).Guarded aligned := by
  constructor
  · rintro _ ⟨⟩
  · rintro _ ⟨⟩
    exact h

private theorem nextPipeline_guarded (commands : List RedisCommand) : (nextPipeline state request commands).Guarded aligned := by
  rw [nextPipeline]
  cases hs : sift state request commands with
  | error error => exact guarded_error (sift_handled commands error hs)
  | ok sifted =>
    dsimp only
    split
    · exact guarded_answer (fails_ok _)
    · split
      · rename_i hempty
        apply guarded_answer
        apply Fails.map
        apply fill_handled
        intro _
        rw [sift_aligned hs, List.isEmpty_iff.mp hempty]
        rfl
      · exact guarded_work (sift_aligned hs)

theorem plan_guarded (endpoint : Endpoint) (body : Bytes) : (plan state request body endpoint).next.Guarded aligned := by
  have hbatch : ∀ error, Handled aligned (batchParseError error) := fun error => by cases error <;> trivial
  cases endpoint with
  | command =>
    rw [plan, planCommand]
    split
    · rename_i error _
      apply guarded_error
      cases error <;> trivial
    · dsimp only
      split
      · exact guarded_error (handled_ofAcl _)
      · exact guarded_work trivial
  | pipeline =>
    rw [plan, planPipeline]
    split
    · exact guarded_error (hbatch _)
    · exact nextPipeline_guarded _
  | multiExec =>
    rw [plan, planMultiExec]
    split
    · exact guarded_error (hbatch _)
    · split
      · exact guarded_error trivial
      · dsimp only
        split
        · exact guarded_error (handled_ofAcl _)
        · exact guarded_work trivial

end Handled
end Srh.Http
