import Srh.Adapters.Authentication
import Srh.Adapters.FredExecutor
import Srh.Adapters.PoolManager
import Srh.Http.Gateway

/-! The server that main puts together: the service over its authenticator and its pool
manager. A request that waits for one of them is a call or a task there, and goes on
with what it returns. -/
namespace Srh.Server
open Srh.Lib Srh.Domain Srh.Ports Srh.Http Srh.Http.Gateway Srh.Adapters

def error? : CommandResult → Option ExecError
  | .ok _ => none
  | .error error => some error

def recorded (executor : Executor) : Operation → List ExecError
  | .execute command => (error? (executor.execute command)).toList
  | .pipeline commands => (executor.pipeline commands).filterMap error?
  | .transaction commands =>
    match executor.transaction commands with
    | .ok slots => slots.filterMap error?
    | .error error => [error]

/-- There is one result for each future that a pipeline joins. -/
def joined (executor : Executor) (operation : Operation) : Bool :=
  (executor.pipeline operation.commands).length = (FredExecutor.branches (fun _ => "") (.pipeline operation.commands)).length

theorem joined_iff {executor : Executor} {operation : Operation} :
    joined executor operation ↔ (executor.pipeline operation.commands).length = operation.commands.length := by
  rw [joined, FredExecutor.branches, List.length_map, decide_eq_true_eq]

/-- The three components. A request at its pool has a task of the pool manager, and what
the executor has returned to it until its lease is dropped. -/
structure State where
  gateway : Gateway.State
  authentication : Authentication.State
  pools : PoolManager.World
  leases : Nat → Option Nat
  results : Nat → Option Executor

inductive Event where
  | arrive (inbound : Inbound)
  | authenticate (event : Authentication.Event)
  | authenticated (task now : Nat)
  | read (task now : Nat) (upload : Upload) (buildError : Option String)
  | pool (task : Nat) (action : PoolManager.Action)
  | returned (task : Nat) (executor : Executor)
  | elapse (task : Nat)
  | abandon (task : Nat)
  | checked (task : Nat) (pools : List PoolReadiness)
  | maintain (event : PoolManager.Event)
  | sweep (now : Nat)

def ownAction : PoolManager.Action → Bool
  | .complete _ => false
  | .cancel => false
  | _ => true

def upkeep : PoolManager.Event → Bool
  | .acquire _ _ => false
  | .act _ _ => false
  | _ => true

section Steps
variable {Key : Type} (app : AppState) (library : Jwt.Library Key)

namespace State

def waiting (s : State) (i : Nat) : Option Waiting := s.gateway.tasks[i]?.bind (·.phase.waiting?)

def stage (s : State) (j : Nat) : Option PoolManager.Stage := s.pools.tasks[j]?.map PoolManager.Task.stage

def hear (s : State) (i : Nat) (signal : Signal) : Option State :=
  ((Gateway.machine app).step s.gateway (.signal i signal)).map fun gateway => { s with gateway := gateway }

def authenticate (s : State) (event : Authentication.Event) : Option State :=
  (Authentication.step library app.cfg s.authentication event).map fun a => { s with authentication := a }

def manage (s : State) (event : PoolManager.Event) : Option State :=
  ((PoolManager.machine app.cfg.pools).step s.pools event).map fun pools => { s with pools := pools }

/-- A request that wants a lease enters the pool manager, or hears at once that there is
no such pool. -/
def acquire (s : State) (i : Nat) (buildError : Option String) : Option State :=
  match s.waiting i with
  | some (.acquiring request _) =>
    match PoolManager.getOrBuild app.cfg.pools s.pools request.identity.pool buildError with
    | .error error => s.hear app i (.acquired (.error error))
    | .ok _ =>
      (s.manage app (.acquire request.identity.pool buildError)).map fun t =>
        { t with leases := Function.update t.leases i (some s.pools.tasks.length) }
  | _ => some s

/-- What a request hears from its task: its lease, the refusal of one, or the results of
its call once its lease is dropped. -/
def deliver (s : State) (i j : Nat) : Option State :=
  match s.waiting i, s.stage j, s.results i with
  | some (.acquiring _ _), some (.leased _ _), _ => s.hear app i (.acquired (.ok ()))
  | some (.acquiring _ _), some (.dropping [] (some error)), _ => s.hear app i (.acquired (.error error))
  | some (.calling _ _), some (.dropping [] none), some executor => s.hear app i (.called executor)
  | _, _, _ => some s

/-- A request that ends while it waits drops the future that it waits for. -/
def dropFuture (s : State) (i : Nat) : Option State :=
  match s.waiting i with
  | some (.authenticating _) => s.authenticate app library (.abandon i)
  | some (.acquiring _ _) => (s.leases i).bind fun j => s.manage app (.act j .cancel)
  | some (.calling _ _) => (s.leases i).bind fun j => s.manage app (.act j .cancel)
  | _ => some s

end State

def step (s : State) : Event → Option State
  | .arrive inbound =>
    let t := { s with gateway := s.gateway.arrive app inbound }
    match t.waiting s.gateway.tasks.length with
    | some (.authenticating token) => t.authenticate app library (.start s.gateway.tasks.length token)
    | _ => some t
  | .authenticate event => if event.inner then s.authenticate app library event else none
  | .authenticated i now =>
    match s.authentication.calls i with
    | some ⟨_, _, .done result⟩ =>
      (s.authenticate app library (.finish i)).bind fun t => t.hear app i (.authenticated now result)
    | _ => none
  | .read i now upload buildError => (s.hear app i (.read now upload)).bind fun t => t.acquire app i buildError
  | .pool i action =>
    if ownAction action then
      (s.leases i).bind fun j => (s.manage app (.act j action)).bind fun t => t.deliver app i j
    else none
  -- the lease is dropped before the handler sees the results
  | .returned i executor =>
    match s.waiting i, s.leases i with
    | some (.calling _ work), some j =>
      if joined executor work.operation then
        (s.manage app (.act j (.complete (recorded executor work.operation)))).map fun t =>
          { t with results := Function.update t.results i (some executor) }
      else none
    | _, _ => none
  | .elapse i => (s.dropFuture app library i).bind fun t => t.hear app i .elapse
  | .abandon i => (s.dropFuture app library i).bind fun t => t.hear app i .abandon
  | .checked i pools => s.hear app i (.checked pools)
  | .maintain event => if upkeep event then s.manage app event else none
  | .sweep now => some { s with gateway := s.gateway.sweep app now }

def machine : Machine State Event := ⟨step app library⟩

def start : State := ⟨Gateway.start app, .init, .new, fun _ => none, fun _ => none⟩

end Steps
end Srh.Server
