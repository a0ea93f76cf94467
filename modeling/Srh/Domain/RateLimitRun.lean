import Srh.Domain.RateLimit

/-! Serialised runs of one limiter. A run lists the critical sections in the
order they execute, each with the clock reading its caller took. -/
namespace Srh.Domain.RateLimit
open Srh.Lib

inductive Call (K : Type) where
  | probe (key : K)
  | charge (key : K) (commandCount : Nat)
  | sweepIdle
  | takeDebtForgivenEvictions
  deriving DecidableEq, Repr

structure Timed (K : Type) where
  now : Nat
  call : Call K
  deriving DecidableEq, Repr

inductive Reply where
  | outcome (result : Outcome)
  | count (n : Nat)

def Call.access? {K : Type} : Call K → Option (K × Access)
  | .probe key => some (key, .probe)
  | .charge key commandCount => some (key, .charge commandCount)
  | .sweepIdle => none
  | .takeDebtForgivenEvictions => none

section Calls
variable {K : Type}

def accesses (calls : List (Timed K)) : List (K × Nat) :=
  calls.filterMap fun c => c.call.access?.map fun a => (a.1, c.now)

def NonDecreasing (calls : List (Timed K)) : Prop := calls.Pairwise fun a b => a.now ≤ b.now

theorem accesses_cons (c : Timed K) (calls : List (Timed K)) :
    accesses (c :: calls) = (c.call.access?.map fun a => (a.1, c.now)).toList ++ accesses calls := by
  simp only [accesses]
  cases h : c.call.access? <;> simp [h]

end Calls

variable {K : Type} [DecidableEq K] (limiter : RateLimiter)

def perform (state : State K) (c : Timed K) : Reply × State K :=
  match c.call with
  | .probe key => let r := probe limiter state c.now key; (.outcome r.1, r.2)
  | .charge key commandCount => let r := charge limiter state c.now key commandCount; (.outcome r.1, r.2)
  | .sweepIdle => let r := sweepIdle limiter state c.now; (.count r.1, r.2)
  | .takeDebtForgivenEvictions => let r := takeDebtForgivenEvictions state; (.count r.1, r.2)

def runFrom (state : State K) : List (Timed K) → State K
  | [] => state
  | c :: cs => runFrom (perform limiter state c).2 cs

def run (calls : List (Timed K)) : State K := runFrom limiter .empty calls

def Retained (key : K) (state : State K) : List (Timed K) → Prop
  | [] => True
  | c :: cs =>
    (state.buckets.entries.get key ≠ none → (perform limiter state c).2.buckets.entries.get key ≠ none) ∧
      Retained key (perform limiter state c).2 cs

variable {limiter}

private theorem runFrom_append (state : State K) (calls more : List (Timed K)) :
    runFrom limiter state (calls ++ more) = runFrom limiter (runFrom limiter state calls) more := by
  induction calls generalizing state with
  | nil => rfl
  | cons c calls ih => exact ih _

theorem run_append (calls more : List (Timed K)) : run limiter (calls ++ more) = runFrom limiter (run limiter calls) more :=
  runFrom_append ..

end Srh.Domain.RateLimit
