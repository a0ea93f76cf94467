import Srh.Config
import Srh.Domain.Breaker
import Srh.Domain.Resp
import Srh.Lib.Machine

/-! Acquisition, release and eviction of adapters/pool_manager.rs, with the
outcome recording of adapters/breaker_executor.rs. A request is a task that
moves through the stages of PoolManager::acquire_entry; what it holds at a stage
is listed in the order in which its guards drop. -/
namespace Srh.Adapters.PoolManager
open Srh.Lib Srh.Domain Srh.Domain.Breaker

def idleEvictionSecs : Nat := 900

/-- A built pool. A client lease is taken when its flag is set. -/
structure PoolEntry where
  name : String
  config : PoolConfig
  clientLeases : List Bool
  nextClient : Nat
  lastUsed : Nat
  available : Nat
  waiters : Int
  breaker : Inner

namespace PoolEntry

def breakerConfig (entry : PoolEntry) : Breaker :=
  ⟨entry.config.breaker.failureThreshold, Duration.fromMillis entry.config.breaker.cooldownMs⟩

def build (name : String) (config : PoolConfig) (unixSecs : Nat) : PoolEntry where
  name := name
  config := config
  clientLeases := List.replicate config.maxConnections false
  nextClient := 0
  lastUsed := unixSecs
  available := config.maxConnections
  waiters := 0
  breaker := .new

def scan (entry : PoolEntry) : Nat × Option Nat :=
  let size := entry.clientLeases.length
  let start := entry.nextClient % size
  (start, ((List.range size).map fun offset => (start + offset) % size).find? fun index =>
    entry.clientLeases[index]? = some false)

end PoolEntry

/-- A guard, by the effect of its drop: a BreakerExecutor cancels its permit
unless it has recorded an outcome, a PoolLease lowers the gauge and then returns
the semaphore permit and the client lease, a WaiterGuard leaves the queue, and an
AdmissionGuard cancels its permit. -/
inductive Resource where
  | executor (permit : BreakerPermit) (recorded : Bool)
  | inUse
  | permit
  | client (index : Nat)
  | waiter
  | guard (permit : BreakerPermit)
  deriving DecidableEq, Repr

inductive Stage where
  | entered
  | admitted (permit : BreakerPermit)
  | queued (permit : BreakerPermit)
  | granted (permit : BreakerPermit)
  | unwaited (permit : BreakerPermit)
  | counted (permit : BreakerPermit)
  | waitingClient (permit : BreakerPermit) (start : Nat)
  | leased (permit : BreakerPermit) (client : Nat)
  | recorded (permit : BreakerPermit) (client : Nat)
  | dropping (held : List Resource) (error : Option AcquireError)
  deriving DecidableEq, Repr

namespace Stage

def held : Stage → List Resource
  | entered => []
  | admitted p => [.guard p]
  | queued p => [.waiter, .guard p]
  | granted p => [.permit, .waiter, .guard p]
  | unwaited p => [.permit, .guard p]
  | counted p => [.permit, .guard p]
  | waitingClient p _ => [.permit, .guard p]
  | leased p client => [.executor p false, .inUse, .permit, .client client]
  | recorded p client => [.executor p true, .inUse, .permit, .client client]
  | dropping held _ => held

/-- The task is at an await point, where its future may be dropped. A granted
semaphore permit may still be unseen by the task. -/
def suspended : Stage → Bool
  | queued _ => true
  | granted _ => true
  | waitingClient _ _ => true
  | leased _ _ => true
  | _ => false

/-- Between get_or_build and the waiter increment. -/
def inTransit : Stage → Bool
  | entered => true
  | admitted _ => true
  | _ => false

end Stage

/-- One step of a task. The grant and the lock are made by the semaphore and the
mutex, the timeout by the timer, the cancellation by whoever drops the future. -/
inductive Action where
  | tryAdmit
  | enqueue
  | grant
  | timeout
  | unwait
  | countInUse
  | acquireClient
  | lockClient
  | complete (errors : List ExecError)
  | finish
  | cancel
  | drop
  deriving DecidableEq, Repr

def countsAsFailure : ExecError → Bool
  | .transport _ => true
  | .timeout => true
  | _ => false

def dropResource (entry : PoolEntry) : Resource → PoolEntry × Int
  | .executor permit recorded =>
    (if recorded then entry else { entry with breaker := Breaker.cancel entry.breaker permit }, 0)
  | .inUse => (entry, -1)
  | .permit => ({ entry with available := entry.available + 1 }, 0)
  | .client index => ({ entry with clientLeases := entry.clientLeases.set index false }, 0)
  | .waiter => ({ entry with waiters := entry.waiters - 1 }, 0)
  | .guard permit => ({ entry with breaker := Breaker.cancel entry.breaker permit }, 0)

structure Effect where
  entry : PoolEntry
  stage : Stage
  inUse : Int := 0

def lease (entry : PoolEntry) (permit : BreakerPermit) (client : Nat) : Effect :=
  { entry := { entry with clientLeases := entry.clientLeases.set client true }, stage := .leased permit client }

def act (instant : Nat) (entry : PoolEntry) : Action → Stage → Option Effect
  | .tryAdmit, .entered =>
    match Breaker.tryAdmit entry.breakerConfig entry.breaker instant with
    | (.error retryAfterSecs, inner) =>
      some { entry := { entry with breaker := inner }, stage := .dropping [] (some (.poolOpen retryAfterSecs)) }
    | (.ok admission, inner) =>
      some { entry := { entry with breaker := inner }, stage := .admitted admission.permit }
  | .enqueue, .admitted p =>
    if entry.waiters < entry.config.maxWaiters then
      some { entry := { entry with waiters := entry.waiters + 1 }, stage := .queued p }
    else some { entry := entry, stage := .dropping (Stage.admitted p).held (some .overloaded) }
  | .grant, .queued p =>
    if 0 < entry.available then
      some { entry := { entry with available := entry.available - 1 }, stage := .granted p }
    else none
  | .timeout, .queued p => some { entry := entry, stage := .dropping (Stage.queued p).held (some .overloaded) }
  | .unwait, .granted p => some { entry := { entry with waiters := entry.waiters - 1 }, stage := .unwaited p }
  | .countInUse, .unwaited p => some { entry := entry, stage := .counted p, inUse := 1 }
  | .acquireClient, .counted p =>
    let next := { entry with nextClient := (entry.nextClient + 1) % 2 ^ 64 }
    match entry.scan with
    | (_, some client) => some (lease next p client)
    | (start, none) => some { entry := next, stage := .waitingClient p start }
  | .lockClient, .waitingClient p start =>
    if entry.clientLeases[start]? = some false then some (lease entry p start) else none
  | .complete errors, .leased p client =>
    let outcome := Breaker.record entry.breakerConfig entry.breaker instant p (errors.any countsAsFailure)
    some { entry := { entry with breaker := outcome.2 }, stage := .recorded p client }
  | .finish, .recorded p client => some { entry := entry, stage := .dropping (Stage.recorded p client).held none }
  | .drop, .dropping (resource :: held) error =>
    let dropped := dropResource entry resource
    some { entry := dropped.1, stage := .dropping held error, inUse := dropped.2 }
  | .cancel, stage =>
    if stage.suspended then some { entry := entry, stage := .dropping stage.held none } else none
  | _, _ => none

/-- Everything that a step of a task can do. Leaving for good, whether shed,
timed out, cancelled or finished, only starts the drops. -/
inductive Acts (instant : Nat) (entry : PoolEntry) : Stage → Effect → Prop
  | refused (retryAfterSecs : Nat) (inner : Inner)
      (h : Breaker.tryAdmit entry.breakerConfig entry.breaker instant = (.error retryAfterSecs, inner)) :
      Acts instant entry .entered
        ⟨{ entry with breaker := inner }, .dropping [] (some (.poolOpen retryAfterSecs)), 0⟩
  | admitted (admission : BreakerAdmission) (inner : Inner)
      (h : Breaker.tryAdmit entry.breakerConfig entry.breaker instant = (.ok admission, inner)) :
      Acts instant entry .entered ⟨{ entry with breaker := inner }, .admitted admission.permit, 0⟩
  | enqueued (p : BreakerPermit) (h : entry.waiters < entry.config.maxWaiters) :
      Acts instant entry (.admitted p) ⟨{ entry with waiters := entry.waiters + 1 }, .queued p, 0⟩
  | granted (p : BreakerPermit) (h : 0 < entry.available) :
      Acts instant entry (.queued p) ⟨{ entry with available := entry.available - 1 }, .granted p, 0⟩
  | unwaited (p : BreakerPermit) :
      Acts instant entry (.granted p) ⟨{ entry with waiters := entry.waiters - 1 }, .unwaited p, 0⟩
  | counted (p : BreakerPermit) : Acts instant entry (.unwaited p) ⟨entry, .counted p, 1⟩
  | leased (stage : Stage) (p : BreakerPermit) (client next : Nat)
      (hs : stage = .counted p ∨ ∃ start, stage = .waitingClient p start)
      (h : entry.clientLeases[client]? = some false) :
      Acts instant entry stage
        ⟨{ entry with clientLeases := entry.clientLeases.set client true, nextClient := next }, .leased p client, 0⟩
  | waits (p : BreakerPermit) (start next : Nat) (h : entry.scan = (start, none)) :
      Acts instant entry (.counted p) ⟨{ entry with nextClient := next }, .waitingClient p start, 0⟩
  | recorded (p : BreakerPermit) (client : Nat) (failed : Bool) :
      Acts instant entry (.leased p client)
        ⟨{ entry with breaker := (Breaker.record entry.breakerConfig entry.breaker instant p failed).2 },
          .recorded p client, 0⟩
  | left (stage : Stage) (error : Option AcquireError) :
      Acts instant entry stage ⟨entry, .dropping stage.held error, 0⟩
  | dropped (resource : Resource) (held : List Resource) (error : Option AcquireError) :
      Acts instant entry (.dropping (resource :: held) error)
        ⟨(dropResource entry resource).1, .dropping held error, (dropResource entry resource).2⟩

private theorem scan_free {entry : PoolEntry} {start client : Nat} (h : entry.scan = (start, some client)) :
    entry.clientLeases[client]? = some false := by
  rw [PoolEntry.scan, Prod.mk.injEq] at h
  have hfree := List.find?_some h.2
  exact of_decide_eq_true hfree

theorem acts_of_act {instant : Nat} {entry : PoolEntry} {a : Action} {stage : Stage} {effect : Effect}
    (h : act instant entry a stage = some effect) : Acts instant entry stage effect := by
  revert h
  fun_cases act
  case case1 secs inner hadmit => rintro ⟨⟩; exact .refused secs inner hadmit
  case case2 admission inner hadmit => rintro ⟨⟩; exact .admitted admission inner hadmit
  case case3 p hlt => rintro ⟨⟩; exact .enqueued p hlt
  case case4 p _ => rintro ⟨⟩; exact .left (.admitted p) _
  case case5 p hpos => rintro ⟨⟩; exact .granted p hpos
  case case7 p => rintro ⟨⟩; exact .left (.queued p) _
  case case8 p => rintro ⟨⟩; exact .unwaited p
  case case9 p => rintro ⟨⟩; exact .counted p
  case case10 p _ start client hscan => rintro ⟨⟩; exact .leased _ p client _ (.inl rfl) (scan_free hscan)
  case case11 p _ start hscan => rintro ⟨⟩; exact .waits p start _ hscan
  case case12 p start hfree => rintro ⟨⟩; exact .leased _ p start _ (.inr ⟨start, rfl⟩) hfree
  case case14 errors p client _ => rintro ⟨⟩; exact .recorded p client _
  case case15 p client => rintro ⟨⟩; exact .left (.recorded p client) _
  case case16 resource held error _ => rintro ⟨⟩; exact .dropped resource held error
  case case17 _ => rintro ⟨⟩; exact .left stage none
  all_goals rintro ⟨⟩

structure Task where
  entry : Nat
  since : Nat
  stage : Stage
  deriving DecidableEq, Repr

/-- A pass of evict_idle: its clock reading, the names still to visit, and the pool
it has removed and is shutting down. -/
structure Evictor where
  now : Nat
  names : List String
  closing : Option String
  deriving DecidableEq, Repr

/-- Every entry ever built stays in the list; the map names the current ones. -/
structure World where
  unixSecs : Nat
  instant : Nat
  entries : List PoolEntry
  pools : FiniteMap String Nat
  permitsInUse : String → Int
  tasks : List Task
  evictors : List Evictor

def World.new : World := ⟨0, 0, [], .empty, fun _ => 0, [], []⟩

inductive Event where
  | tick (secs nanos : Nat)
  | acquire (name : String) (buildError : Option String)
  | act (task : Nat) (action : Action)
  | evictIdle (names : List String)
  | removeIf (evictor : Nat)
  | resetGauges (evictor : Nat)
  deriving DecidableEq, Repr

def setGauge (gauge : String → Int) (name : String) (value : Int) : String → Int :=
  fun n => if n = name then value else gauge n

section Steps
variable (config : FiniteMap String PoolConfig) (w : World)

/-- PoolManager::get_or_build, under the lock of the map's shard. -/
def getOrBuild (name : String) (buildError : Option String) : Except AcquireError (World × Nat) :=
  match config.get name with
  | none => .error (.unknownPool name)
  | some poolConfig =>
    match w.pools.get name with
    | some id =>
      .ok ({ w with entries := w.entries.modify id fun entry => { entry with lastUsed := w.unixSecs } }, id)
    | none =>
      match buildError with
      | some message => .error (.internal message)
      | none =>
        .ok ({ w with
          entries := w.entries ++ [.build name poolConfig w.unixSecs]
          pools := w.pools.insert name w.entries.length
          permitsInUse := setGauge w.permitsInUse name 0 }, w.entries.length)

/-- A failed acquisition leaves everything as it was. -/
def acquire (name : String) (buildError : Option String) : World :=
  match getOrBuild config w name buildError with
  | .error _ => w
  | .ok (built, id) => { built with tasks := built.tasks ++ [⟨id, w.unixSecs, .entered⟩] }

def World.withEffect (task : Nat) (t : Task) (effect : Effect) : World :=
  { w with
    entries := w.entries.set t.entry effect.entry
    tasks := w.tasks.set task { t with stage := effect.stage }
    permitsInUse := setGauge w.permitsInUse effect.entry.name (w.permitsInUse effect.entry.name + effect.inUse) }

def actTask (task : Nat) (action : Action) : Option World := do
  let t ← w.tasks[task]?
  let entry ← w.entries[t.entry]?
  let effect ← act w.instant entry action t.stage
  some (w.withEffect task t effect)

/-- The predicate of remove_if, evaluated as one step. -/
def PoolEntry.evictable (entry : PoolEntry) (now : Nat) : Bool :=
  now - entry.lastUsed > idleEvictionSecs ∧ entry.available = entry.config.maxConnections ∧ entry.waiters = 0

def removeIf (evictor : Nat) : Option World := do
  let e ← w.evictors[evictor]?
  match e.closing, e.names with
  | none, name :: names =>
    let id := w.pools.get name
    if (id.bind (w.entries[·]?)).any (·.evictable e.now) then
      some { w with
        pools := w.pools.remove name
        evictors := w.evictors.set evictor ⟨e.now, names, some name⟩ }
    else some { w with evictors := w.evictors.set evictor ⟨e.now, names, none⟩ }
  | _, _ => none

/-- The gauges are reset after the removed pool has shut down. -/
def resetGauges (evictor : Nat) : Option World := do
  let e ← w.evictors[evictor]?
  let name ← e.closing
  some { w with
    permitsInUse := setGauge w.permitsInUse name 0
    evictors := w.evictors.set evictor { e with closing := none } }

/-- Any number of requests and eviction passes, in any interleaving. The names of
a pass are not a snapshot of the map: iteration may see any of its states. -/
def machine : Machine World Event where
  step w
    | .tick secs nanos => some { w with unixSecs := w.unixSecs + secs, instant := w.instant + nanos }
    | .acquire name buildError => some (acquire config w name buildError)
    | .act task action => actTask w task action
    | .evictIdle names => some { w with evictors := w.evictors ++ [⟨w.unixSecs, names, none⟩] }
    | .removeIf evictor => removeIf w evictor
    | .resetGauges evictor => resetGauges w evictor

end Steps
end Srh.Adapters.PoolManager
