import Mathlib.Algebra.Order.Group.Nat
import Mathlib.Order.Bounds.Basic
import Mathlib.Tactic.Ring
import Srh.Adapters.FredExecutor

/-! How long an operation waits. The client bounds every wait for a command or a
reset by the command timeout, and an executor resets its connection at most once. -/
namespace Srh.Adapters.FredTiming
open Srh.Lib Srh.Domain Srh.Ports FredExecutor

section Procs
variable {ρ σ : Type} (limit : Nat)

/-- An operation, with the reset flag of its executor, may last this long. -/
inductive Lasts : Bool → Proc ρ → Nat → Prop where
  | done {started : Bool} (result : ρ) : Lasts started (.done result) 0
  | raw {started : Bool} {command : RedisCommand} {next : Except FredError Resp3Frame → Proc ρ} {wait rest : Nat}
      (answer : Except FredError Resp3Frame) (hw : wait ≤ limit) (h : Lasts started (next answer) rest) :
      Lasts started (.raw command next) (wait + rest)
  | mustReset {started : Bool} {next : Bool → Proc ρ} {rest : Nat} (connected : Bool)
      (h : Lasts (started || connected) (next (connected && !started)) rest) : Lasts started (.mustReset next) rest
  | reset {started : Bool} {next : Proc ρ} {wait rest : Nat} (hw : wait ≤ limit) (h : Lasts started next rest) :
      Lasts started (.reset next) (wait + rest)

def resetBudget (started : Bool) : Nat := if started then 0 else limit

variable {limit} {started : Bool} {command : RedisCommand} {next : Except ExecError Resp3Frame → Proc ρ} {t : Nat}

private theorem lasts_map {f : ρ → σ} {p : Proc ρ} : Lasts limit started (p.map f) t ↔ Lasts limit started p t := by
  constructor
  · intro h
    induction p generalizing started t with
    | done result => cases h; exact .done _
    | raw command next ih => cases h with | raw answer hw h => exact .raw answer hw (ih answer h)
    | mustReset next ih => cases h with | mustReset connected h => exact .mustReset connected (ih _ h)
    | reset next ih => cases h with | reset hw h => exact .reset hw (ih h)
  · intro h
    induction h with
    | done result => exact .done _
    | raw answer hw _ ih => exact .raw answer hw ih
    | mustReset connected _ ih => exact .mustReset connected ih
    | reset hw _ ih => exact .reset hw ih

/-- A failed command costs a reset only out of the reset budget. -/
theorem Lasts.of_mapError {error : FredError} {after : ExecError → Proc ρ}
    (h : Lasts limit started (mapError error after) t) :
    ∃ mapped s rest, Lasts limit s (after mapped) rest ∧ t + resetBudget limit s ≤ resetBudget limit started + rest := by
  rw [mapError] at h
  split at h
  · cases h with
    | mustReset connected h =>
      cases started <;> cases connected <;> simp only [Bool.false_eq_true, if_false, if_true, Bool.not_true,
        Bool.not_false, Bool.and_true, Bool.and_false, Bool.or_false, Bool.or_true] at h
      case false.true =>
        cases h with
        | @reset _ _ wait rest hw h =>
          exact ⟨_, _, rest, h, by simp [resetBudget]; omega⟩
      all_goals exact ⟨_, _, t, h, by omega⟩
  · exact ⟨_, _, t, h, by omega⟩

/-- One command costs its timeout, and its reset. -/
theorem Lasts.of_call (h : Lasts limit started (call command next) t) :
    ∃ reply s rest, Lasts limit s (next reply) rest ∧
      t + resetBudget limit s ≤ limit + resetBudget limit started + rest := by
  cases h with
  | @raw _ _ _ wait rest answer hw h =>
    cases answer with
    | ok frame => exact ⟨_, _, rest, h, by omega⟩
    | error error =>
      rw [answered] at h
      obtain ⟨mapped, s, more, h, hb⟩ := h.of_mapError
      exact ⟨_, s, more, h, by omega⟩

private theorem Lasts.of_done {result : ρ} (h : Lasts limit started (.done result) t) : t = 0 := by
  cases h
  rfl

/-- A command whose answer ends the operation. -/
theorem Lasts.of_last (h : Lasts limit started (call command next) t) (hd : ∀ reply, ∃ result, next reply = .done result) :
    t ≤ limit + resetBudget limit started := by
  obtain ⟨reply, s, rest, h, hb⟩ := h.of_call
  obtain ⟨result, hr⟩ := hd reply
  rw [hr] at h
  have := h.of_done
  omega

/-- An answer that takes the whole timeout. -/
theorem Lasts.answered (frame : Resp3Frame) (h : Lasts limit started (next (.ok frame)) t) :
    Lasts limit started (call command next) (limit + t) :=
  .raw (.ok frame) le_rfl h

/-- A command that times out on a connected client, and a reset that takes as long. -/
theorem Lasts.timedOut (h : Lasts limit true (next (.error .timeout)) t) :
    Lasts limit false (call command next) (limit + (limit + t)) :=
  .raw (.error ⟨true, "", ""⟩) le_rfl (.mustReset true (.reset le_rfl h))

end Procs

section Operations
variable {debug : RespValue → String} {limit t : Nat} {started : Bool}

private theorem Lasts.executeUnlocked_le {command : RedisCommand} (h : Lasts limit started (executeUnlocked command) t) :
    t ≤ limit + resetBudget limit started :=
  h.of_last fun _ => ⟨_, rfl⟩

private theorem Lasts.queue_le {commands : List RedisCommand} (h : Lasts limit started (queue debug commands) t) :
    t ≤ (commands.length + 1) * limit + resetBudget limit started := by
  induction commands generalizing started t with
  | nil =>
    have := h.of_last fun reply => by
      split
      · exact ⟨_, rfl⟩
      · exact ⟨_, rfl⟩
      · exact ⟨_, rfl⟩
      · split <;> exact ⟨_, rfl⟩
    simpa using this
  | cons command commands ih =>
    obtain ⟨reply, s, rest, h, hb⟩ := h.of_call
    have hrest : rest ≤ (commands.length + 1) * limit + resetBudget limit s := by
      have discard : limit ≤ (commands.length + 1) * limit := Nat.le_mul_of_pos_left _ (Nat.succ_pos _)
      split at h
      · exact ih h
      · exact (h.of_last fun _ => ⟨_, rfl⟩).trans (by omega)
      · exact (h.of_last fun _ => ⟨_, rfl⟩).trans (by omega)
    rw [List.length_cons, Nat.succ_mul]
    omega

private theorem Lasts.transaction_le {commands : List RedisCommand} (h : Lasts limit started (transaction debug commands) t) :
    t ≤ (commands.length + 2) * limit + resetBudget limit started := by
  rw [transaction] at h
  split at h
  · have := h.of_done
    omega
  · obtain ⟨reply, s, rest, h, hb⟩ := h.of_call
    rw [Nat.succ_mul]
    split at h
    · have := h.of_done
      omega
    · have := h.queue_le
      omega
    · have := h.of_done
      omega

/-- Every command is queued at the last moment and the EXEC times out. -/
theorem lasts_queue (debug : RespValue → String) (limit : Nat) (commands : List RedisCommand) :
    Lasts limit false (queue debug commands) ((commands.length + 1) * limit + limit) := by
  induction commands with
  | nil =>
    rw [List.length_nil, Nat.zero_add, Nat.one_mul, queue]
    apply Lasts.timedOut (t := 0)
    exact .done _
  | cons command commands ih =>
    have hl : ((command :: commands).length + 1) * limit + limit =
        limit + ((commands.length + 1) * limit + limit) := by
      rw [List.length_cons]
      ring
    rw [hl, queue]
    apply Lasts.answered (.simpleString [81, 85, 69, 85, 69, 68])
    exact ih

private theorem lasts_transaction (debug : RespValue → String) (limit : Nat) {commands : List RedisCommand} (hn : commands ≠ []) :
    Lasts limit false (transaction debug commands) ((commands.length + 2) * limit + limit) := by
  have hl : (commands.length + 2) * limit + limit = limit + ((commands.length + 1) * limit + limit) := by ring
  rw [hl, transaction, if_neg hn]
  apply Lasts.answered (.simpleString [79, 75])
  exact lasts_queue debug limit commands

private theorem lasts_executeUnlocked (limit : Nat) (command : RedisCommand) :
    Lasts limit false (executeUnlocked command) (limit + limit) := by
  rw [executeUnlocked]
  apply Lasts.timedOut (t := 0)
  exact .done _

def rounds : Operation → Nat
  | .execute _ => 1
  | .pipeline _ => 1
  | .transaction commands => commands.length + 2

/-- The operation may last this long: as one of the futures it polls together,
whether or not another of them has started the reset. -/
def OperationLasts (debug : RespValue → String) (limit : Nat) (operation : Operation) (t : Nat) : Prop :=
  ∃ p ∈ branches debug operation, ∃ started, Lasts limit started p t

private theorem resetBudget_le (limit : Nat) (started : Bool) : resetBudget limit started ≤ limit := by
  cases started with
  | false => exact le_rfl
  | true => exact Nat.zero_le limit

/-- Commands awaited together last as long as one of them. -/
theorem pipelineLasts_isGreatest (debug : RespValue → String) (limit : Nat) {commands : List RedisCommand}
    (hn : commands ≠ []) : IsGreatest {t | OperationLasts debug limit (.pipeline commands) t} (limit + limit) := by
  constructor
  · obtain ⟨command, hm⟩ := List.exists_mem_of_ne_nil _ hn
    exact ⟨_, List.mem_map_of_mem hm, false, lasts_map.mpr (lasts_executeUnlocked limit command)⟩
  · rintro t ⟨p, hp, started, h⟩
    obtain ⟨command, -, rfl⟩ := List.mem_map.mp hp
    exact (lasts_map.mp h).executeUnlocked_le.trans (Nat.add_le_add_left (resetBudget_le limit started) limit)

/-- An operation lasts at most its round trips and one reset, and it may last that
long. -/
theorem operationLasts_isGreatest (debug : RespValue → String) (limit : Nat) {operation : Operation}
    (hn : operation.commands ≠ []) :
    IsGreatest {t | OperationLasts debug limit operation t} ((rounds operation + 1) * limit) := by
  rw [Nat.succ_mul]
  cases operation with
  | execute command =>
    -- One command runs as a pipeline of one does.
    rw [rounds, Nat.one_mul]
    exact pipelineLasts_isGreatest debug limit (List.cons_ne_nil command [])
  | pipeline commands =>
    rw [rounds, Nat.one_mul]
    exact pipelineLasts_isGreatest debug limit hn
  | transaction commands =>
    refine ⟨⟨_, List.mem_singleton_self _, false, lasts_map.mpr (lasts_transaction debug limit hn)⟩, ?_⟩
    rintro t ⟨p, hp, started, h⟩
    obtain rfl := List.mem_singleton.mp hp
    exact (lasts_map.mp h).transaction_le.trans (Nat.add_le_add_left (resetBudget_le limit started) _)

end Operations
end Srh.Adapters.FredTiming
