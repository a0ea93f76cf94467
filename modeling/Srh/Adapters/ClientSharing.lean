import Srh.Http.Health
import Srh.Adapters.FredSession

/-! A pooled client with its two kinds of users. A request holds the lease of the client
until its operation returns; a readiness probe of adapters/pool_manager.rs takes no lease,
and its task is detached, never dropped. Only the operation lock keeps the two apart. -/
namespace Srh.Adapters.ClientSharing
open Srh.Lib Srh.Domain Srh.Ports Srh.Http FredExecutor FredSession

def ping : RedisCommand := ⟨"PING", []⟩

def readinessTimeout : Nat := 500

def readinessDeadline (commandTimeout : Nat) : Nat := min readinessTimeout commandTimeout

/-- The status of a pool: its deadline passed, or the task of its probe failed, or the
PING returned. -/
def readinessStatus (debug : RespValue → String) (deadline : Nat) :
    Option (Except String CommandResult) → PoolReadinessStatus
  | some (.ok (.ok (.simple "PONG"))) => .ready
  | some (.ok (.ok response)) => .unavailable ("unexpected readiness PING response: " ++ debug response)
  | some (.ok (.error error)) => .unavailable error.message
  | some (.error error) => .unavailable ("readiness probe task failed: " ++ error)
  | none => .unavailable s!"readiness PING timed out after {deadline} ms"

inductive User where
  | request (operation : Operation)
  | probe
  deriving DecidableEq

def User.operation : User → Operation
  | request operation => operation
  | probe => .execute ping

/-- The users that wait for the operation lock, and the one that holds it. A user gets
its id when it takes the lock. -/
structure World where
  session : Session
  leased : Bool
  waiting : List User
  holder : Option Request
  probes : List Nat
  nextId : Nat
  handled : List Handled
  reports : List (Nat × PoolReadinessStatus)

def World.new : World := ⟨.normal, false, [], none, [], 0, [], []⟩

inductive Event where
  | lease (operation : Operation)
  | probe
  | lock (k : Nat)
  | skip (k : Nat)
  | act (branch : Nat) (act : Act)
  | finish (inTime : Bool)
  | drop
  | leave (k : Nat)
  | connectionLost

/-- The client as the session model has it: what holds the lock has borrowed it. -/
def World.view (w : World) : FredSession.World := ⟨w.session, w.holder, w.nextId, w.handled⟩

def probeResult : List Branch → Option CommandResult
  | [.ready (.done (.single result))] => some result
  | _ => none

section Machine
variable (debug : RespValue → String) (commandTimeout : Nat)

def World.lock (w : World) (k : Nat) (user : User) : World :=
  { w with
    waiting := w.waiting.eraseIdx k
    holder := some { Request.new debug w.nextId user.operation with locked := true }
    probes := if user = .probe then w.nextId :: w.probes else w.probes
    nextId := w.nextId + 1 }

/-- The holder returns and the lock is free. A probe past its deadline has been reported
without its answer. -/
def World.finish (w : World) (r : Request) (inTime : Bool) : Option World :=
  if w.probes.contains r.id then
    (probeResult r.branches).map fun result =>
      let status := readinessStatus debug (readinessDeadline commandTimeout) (if inTime then some (.ok result) else none)
      { w with holder := none, reports := (r.id, status) :: w.reports }
  else some { w with holder := none, leased := false }

/-- A request is dropped at an await point, in front of the lock or behind it. An empty
transaction returns without the lock. -/
def machine : Machine World Event where
  step w
    | .lease operation =>
      if !w.leased ∧ ∀ command ∈ operation.commands, kind command = .other then
        some { w with leased := true, waiting := w.waiting ++ [.request operation] }
      else none
    | .probe => some { w with waiting := w.waiting ++ [.probe] }
    | .lock k => do
      let user ← w.waiting[k]?
      if w.holder.isNone ∧ takesLock user.operation then some (w.lock debug k user) else none
    | .skip k => do
      let user ← w.waiting[k]?
      if takesLock user.operation then none else some { w with leased := false, waiting := w.waiting.eraseIdx k }
    | .act branch act => do
      let r ← w.holder
      let after ← w.view.act r branch act
      some { w with session := after.session, holder := after.lease, handled := after.handled }
    | .finish inTime => do
      let r ← w.holder
      if r.branches.all Branch.isDone then w.finish debug commandTimeout r inTime else none
    | .drop => do
      let r ← w.holder
      if r.droppable ∧ !w.probes.contains r.id then some { w with holder := none, leased := false } else none
    | .leave k => do
      let user ← w.waiting[k]?
      if user = .probe then none else some { w with leased := false, waiting := w.waiting.eraseIdx k }
    | .connectionLost => some { w with session := .normal }

end Machine

def World.losesEnd (w : World) : Event → Bool
  | .drop => true
  | .act branch act => w.view.losesEnd (.act branch act)
  | _ => false

/-- While a transaction is open its request is not dropped, learns that its MULTI was
accepted, and gets its EXEC or DISCARD through. -/
def Undisturbed (w : World) (e : Event) : Prop := w.session = .normal ∨ w.losesEnd e = false

instance (w : World) (e : Event) : Decidable (Undisturbed w e) :=
  inferInstanceAs (Decidable (_ ∨ _))

variable {debug : RespValue → String} {commandTimeout : Nat} {w t : World} {e : Event} {events : List Event}

inductive Steps (debug : RespValue → String) (commandTimeout : Nat) (w : World) : Event → World → Prop where
  | lease {operation : Operation} (hc : ∀ command ∈ operation.commands, kind command = .other) :
      Steps debug commandTimeout w (.lease operation)
        { w with leased := true, waiting := w.waiting ++ [.request operation] }
  | probe : Steps debug commandTimeout w .probe { w with waiting := w.waiting ++ [.probe] }
  | lock {k : Nat} {user : User} (hu : user ∈ w.waiting) (hl : w.holder = none) (ht : takesLock user.operation = true) :
      Steps debug commandTimeout w (.lock k) (w.lock debug k user)
  | skip {k : Nat} : Steps debug commandTimeout w (.skip k) { w with leased := false, waiting := w.waiting.eraseIdx k }
  | act {branch : Nat} {act : Act} {r : Request} {after : FredSession.World} (hr : w.holder = some r)
      (ha : w.view.act r branch act = some after) :
      Steps debug commandTimeout w (.act branch act)
        { w with session := after.session, holder := after.lease, handled := after.handled }
  | report {inTime : Bool} {r : Request} {result : CommandResult} {joined : Option (Except String CommandResult)}
      (hr : w.holder = some r) (hd : r.branches.all Branch.isDone = true) (hp : r.id ∈ w.probes)
      (hresult : probeResult r.branches = some result) (hj : joined = some (.ok result) ∨ joined = none) :
      Steps debug commandTimeout w (.finish inTime)
        { w with
          holder := none
          reports := (r.id, readinessStatus debug (readinessDeadline commandTimeout) joined) :: w.reports }
  | finish {inTime : Bool} {r : Request} (hr : w.holder = some r) (hd : r.branches.all Branch.isDone = true) :
      Steps debug commandTimeout w (.finish inTime) { w with holder := none, leased := false }
  | drop {r : Request} (hr : w.holder = some r) (hd : r.droppable = true) :
      Steps debug commandTimeout w .drop { w with holder := none, leased := false }
  | leave {k : Nat} : Steps debug commandTimeout w (.leave k) { w with leased := false, waiting := w.waiting.eraseIdx k }
  | connectionLost : Steps debug commandTimeout w .connectionLost { w with session := .normal }

private theorem steps_of_finish {r : Request} {inTime : Bool} (hr : w.holder = some r) (hd : r.branches.all Branch.isDone = true)
    (hs : w.finish debug commandTimeout r inTime = some t) : Steps debug commandTimeout w (.finish inTime) t := by
  rw [World.finish] at hs
  split at hs
  · obtain ⟨result, hresult, rfl⟩ := Option.map_eq_some_iff.mp hs
    refine .report hr hd (List.contains_iff_mem.mp ‹_›) hresult ?_
    cases inTime with
    | true => exact .inl rfl
    | false => exact .inr rfl
  · cases hs
    exact .finish hr hd

private theorem steps_of_step (hs : (machine debug commandTimeout).step w e = some t) : Steps debug commandTimeout w e t := by
  cases e with
  | lease operation =>
    simp only [machine, Option.ite_none_right_eq_some, Option.some.injEq] at hs
    obtain ⟨⟨-, hc⟩, rfl⟩ := hs
    exact .lease hc
  | probe => cases hs; exact .probe
  | lock k =>
    obtain ⟨user, hu, hs⟩ := Option.bind_eq_some_iff.mp hs
    simp only [Option.ite_none_right_eq_some, Option.isNone_iff_eq_none, Option.some.injEq] at hs
    obtain ⟨⟨hl, ht⟩, rfl⟩ := hs
    exact .lock (List.mem_of_getElem? hu) hl ht
  | skip k =>
    obtain ⟨user, hu, hs⟩ := Option.bind_eq_some_iff.mp hs
    simp only [Option.ite_none_left_eq_some, Option.some.injEq] at hs
    obtain ⟨-, rfl⟩ := hs
    exact .skip
  | act branch act =>
    obtain ⟨r, hr, hs⟩ := Option.bind_eq_some_iff.mp hs
    obtain ⟨after, ha, hs⟩ := Option.bind_eq_some_iff.mp hs
    cases hs
    exact .act hr ha
  | finish inTime =>
    obtain ⟨r, hr, hs⟩ := Option.bind_eq_some_iff.mp hs
    simp only [Option.ite_none_right_eq_some] at hs
    exact steps_of_finish hr hs.1 hs.2
  | drop =>
    obtain ⟨r, hr, hs⟩ := Option.bind_eq_some_iff.mp hs
    simp only [Option.ite_none_right_eq_some, Option.some.injEq] at hs
    obtain ⟨⟨hd, -⟩, rfl⟩ := hs
    exact .drop hr hd
  | leave k =>
    obtain ⟨user, hu, hs⟩ := Option.bind_eq_some_iff.mp hs
    simp only [Option.ite_none_left_eq_some, Option.some.injEq] at hs
    obtain ⟨-, rfl⟩ := hs
    exact .leave
  | connectionLost => cases hs; exact .connectionLost

private theorem view_act {v u : FredSession.World} {r : Request} {branch : Nat} {act : Act} (h : v.act r branch act = some u) :
    u.nextId = v.nextId ∧ ∃ b effect, r.branches[branch]? = some b ∧
      b.step r.id v.session r.resetStarted act = some effect ∧
      u.handled = effect.handled ++ v.handled ∧ u.lease =
        some { r with resetStarted := effect.resetStarted, branches := r.branches.set branch effect.branch } := by
  simp only [FredSession.World.act, Option.bind_eq_bind, Option.bind_eq_some_iff, Option.some.injEq] at h
  obtain ⟨-, -, b, hb, effect, he, rfl⟩ := h
  exact ⟨rfl, b, effect, hb, he, rfl, rfl⟩

section Refinement

/-- No user in front of the lock brings a command that steers a transaction, and the one
behind it has the lock. -/
structure Tame (w : World) : Prop where
  waiting : ∀ user ∈ w.waiting, ∀ command ∈ user.operation.commands, kind command = .other
  locked : ∀ r, w.holder = some r → r.locked = true

private theorem tame_append {user : User} {leased : Bool} (hw : Tame w)
    (hc : ∀ command ∈ user.operation.commands, kind command = .other) :
    Tame { w with leased := leased, waiting := w.waiting ++ [user] } := by
  refine ⟨?_, hw.locked⟩
  intro other ho
  obtain ho | ho := List.mem_append.mp ho
  · exact hw.waiting other ho
  · obtain rfl := List.mem_singleton.mp ho
    exact hc

private theorem tame_step (hw : Tame w) (hs : Steps debug commandTimeout w e t) : Tame t := by
  have herase : ∀ k, ∀ user ∈ w.waiting.eraseIdx k, ∀ command ∈ user.operation.commands, kind command = .other :=
    fun k user hu => hw.waiting user (List.mem_of_mem_eraseIdx hu)
  cases hs with
  | lease hc => exact tame_append hw hc
  | probe =>
    apply tame_append hw
    intro command hc
    obtain rfl := List.mem_singleton.mp hc
    decide
  | lock hu hl ht =>
    refine ⟨herase _, ?_⟩
    rintro r ⟨⟩
    rfl
  | skip => exact ⟨herase _, hw.locked⟩
  | leave => exact ⟨herase _, hw.locked⟩
  | @act branch act r after hr ha =>
    obtain ⟨-, b, effect, -, -, -, hl⟩ := view_act ha
    refine ⟨hw.waiting, ?_⟩
    intro q hq
    rw [hl] at hq
    cases hq
    exact hw.locked r hr
  | report hr hd hp hresult hj => exact ⟨hw.waiting, by simp⟩
  | finish hr hd => exact ⟨hw.waiting, by simp⟩
  | drop hr hd => exact ⟨hw.waiting, by simp⟩
  | connectionLost => exact ⟨hw.waiting, hw.locked⟩

private theorem view_finish {r : Request} (hw : Tame w) (hr : w.holder = some r) (hd : r.branches.all Branch.isDone = true) :
    (FredSession.machine debug).run w.view [.finish] = some ⟨w.session, none, w.nextId, w.handled⟩ := by
  have h : r.locked = true ∧ r.branches.all Branch.isDone = true := ⟨hw.locked r hr, hd⟩
  simp only [Machine.run, FredSession.machine, World.view, hr, Option.bind_eq_bind, Option.bind_some, if_pos h]

/-- How the session model sees the step: a user that takes the lock borrows the client,
and what happens in front of the lock does not show. -/
theorem view_step (hw : Tame w) (hs : Steps debug commandTimeout w e t) : ∃ ds,
    (Undisturbed w e → (FredSession.machine debug).Along FredSession.Undisturbed w.view ds) ∧
    (FredSession.machine debug).run w.view ds = some t.view := by
  cases hs with
  | lease hc => exact ⟨[], fun _ => trivial, rfl⟩
  | probe => exact ⟨[], fun _ => trivial, rfl⟩
  | skip => exact ⟨[], fun _ => trivial, rfl⟩
  | leave => exact ⟨[], fun _ => trivial, rfl⟩
  | @lock k user hu hl ht =>
    refine ⟨[.borrow user.operation, .lock], ?_, ?_⟩
    · intro _
      exact ⟨.inr rfl, fun u _ => ⟨.inr rfl, fun v _ => trivial⟩⟩
    · have hc : w.view.lease.isNone = true ∧ ∀ command ∈ user.operation.commands, kind command = .other :=
        ⟨Option.isNone_iff_eq_none.mpr hl, hw.waiting user hu⟩
      simp only [Machine.run, FredSession.machine, if_pos hc]
      simp [World.view, World.lock, Request.new, ht]
  | @act branch act r after hr ha =>
    refine ⟨[.act branch act], fun hu => ⟨hu, fun u _ => trivial⟩, ?_⟩
    have hstep : (FredSession.machine debug).step w.view (.act branch act) = some after :=
      Option.bind_eq_some_iff.mpr ⟨r, hr, ha⟩
    have hn : after.nextId = w.nextId := (view_act ha).1
    rw [Machine.run, hstep, World.view, ← hn]
    rfl
  | report hr hd hp hresult hj => exact ⟨[.finish], fun _ => ⟨.inr rfl, fun u _ => trivial⟩, view_finish hw hr hd⟩
  | finish hr hd => exact ⟨[.finish], fun _ => ⟨.inr rfl, fun u _ => trivial⟩, view_finish hw hr hd⟩
  | @drop r hr hd =>
    refine ⟨[.drop], fun hu => ⟨hu, fun u _ => trivial⟩, ?_⟩
    simp [Machine.run, FredSession.machine, World.view, hr, hd]
  | connectionLost => exact ⟨[.connectionLost], fun _ => ⟨.inr rfl, fun u _ => trivial⟩, rfl⟩

end Refinement

section Probe

inductive Returns (p : CommandResult → Prop) : Proc Outcome → Prop where
  | done {result : CommandResult} (h : p result) : Returns p (.done (.single result))
  | mustReset {next : Bool → Proc Outcome} (h : ∀ must, Returns p (next must)) : Returns p (.mustReset next)
  | reset {next : Proc Outcome} (h : Returns p next) : Returns p (.reset next)

private theorem Returns.imp {p q : CommandResult → Prop} {proc : Proc Outcome} (h : Returns p proc)
    (hpq : ∀ result, p result → q result) : Returns q proc := by
  induction h with
  | done h => exact .done (hpq _ h)
  | mustReset h ih => exact .mustReset ih
  | reset h ih => exact .reset ih

private theorem Returns.not_closing {p : CommandResult → Prop} {proc : Proc Outcome} (h : Returns p proc) : ¬ Closing proc := by
  induction h with
  | done h => exact fun hc => hc
  | mustReset h ih => exact fun hc => ih true (hc true)
  | reset h ih => exact fun hc => ih hc

def Failed (result : CommandResult) : Prop := ∃ error, result = .error error

structure Expected (next : Except FredError Resp3Frame → Proc Outcome) : Prop where
  answer : ∀ frame, Returns (fun _ => True) (next (.ok frame))
  failure : ∀ error, Returns Failed (next (.error error))

private theorem Expected.returns {next : Except FredError Resp3Frame → Proc Outcome} (h : Expected next)
    (answer : Except FredError Resp3Frame) : Returns (fun _ => True) (next answer) := by
  cases answer with
  | ok frame => exact h.answer frame
  | error error => exact (h.failure error).imp fun _ _ => trivial

inductive Probing (sent : Prop) : Branch → Prop where
  | unsent {next : Except FredError Resp3Frame → Proc Outcome} (h : Expected next) : Probing sent (.ready (.raw ping next))
  | awaiting {reply : Option Resp3Frame} {next : Except FredError Resp3Frame → Proc Outcome}
      (hs : reply ≠ none → sent) (h : Expected next) : Probing sent (.awaiting ping reply next)
  | returning {proc : Proc Outcome} (h : Returns (fun result => sent ∨ Failed result) proc) :
      Probing sent (.ready proc)

private theorem Probing.imp {sent sent' : Prop} {b : Branch} (h : Probing sent b) (hs : sent → sent') : Probing sent' b := by
  cases h with
  | unsent h => exact .unsent h
  | awaiting hr h => exact .awaiting (hs ∘ hr) h
  | returning h => exact .returning (h.imp fun _ => Or.imp_left hs)

private theorem probing_new (sent : Prop) : Probing sent (.ready ((executeUnlocked ping).map .single)) := by
  apply Probing.unsent
  refine ⟨fun frame => .done trivial, ?_⟩
  intro error
  have hfail : ∀ mapped : ExecError, Failed ((Except.error mapped).bind fredFrameToResp) := fun mapped => ⟨mapped, rfl⟩
  simp only [answered, mapError]
  split
  · apply Returns.mustReset
    intro must
    cases must with
    | true => exact .reset (.done (hfail .timeout))
    | false => exact .done (hfail .timeout)
  · exact .done (hfail _)

private theorem kind_ping : kind ping = .other := by decide

/-- A probe closes no transaction. -/
theorem Probing.not_closes {sent : Prop} {b : Branch} (h : Probing sent b) : ¬ b.Closes := by
  intro hc
  cases h with
  | unsent h =>
    simp only [Branch.Closes, Closing, kind_ping] at hc
    exact (h.returns (.ok .null)).not_closing (hc _)
  | awaiting hs h =>
    simp only [Branch.Closes, kind_ping] at hc
    exact (h.returns (.ok .null)).not_closing (hc _)
  | returning h => exact h.not_closing hc

/-- A probe stands on a plain session. -/
theorem Probing.session_eq {sent : Prop} {b : Branch} {request : Nat} {session : Session} (h : Probing sent b)
    (hs : Stands request session [b]) : session = .normal := by
  cases hs with
  | quiet hq => rfl
  | opening hk ho => rfl
  | within hq hc => exact absurd hc h.not_closes

private theorem Probing.step {sent : Prop} {b : Branch} {request : Nat} {session : Session} {flag : Bool} {act : Act}
    {effect : Branch.Effect} (h : Probing sent b) (hs : b.step request session flag act = some effect) :
    (∀ h ∈ effect.handled, h.command = ping) ∧ Probing (sent ∨ effect.handled ≠ []) effect.branch := by
  revert hs
  fun_cases Branch.step with
  | case1 command next =>
    rintro ⟨⟩
    cases h with
    | unsent h => exact ⟨by simp, .awaiting (by simp) h⟩
    | returning h => cases h
  | case2 command next reply =>
    intro hs
    obtain ⟨after, -, rfl⟩ := Option.map_eq_some_iff.mp hs
    cases h with
    | unsent h => exact ⟨by simp, .awaiting (by simp) h⟩
    | returning h => cases h
  | case3 command reply next =>
    rintro ⟨⟩
    cases h with
    | awaiting hr h =>
      exact ⟨by simp, .returning ((h.answer reply).imp fun _ _ => .inl (.inl (hr (by simp))))⟩
  | case4 command reply next error =>
    rintro ⟨⟩
    cases h with
    | awaiting hr h => exact ⟨by simp, .returning ((h.failure error).imp fun _ => .inr)⟩
  | case5 next connected =>
    rintro ⟨⟩
    cases h with
    | returning h =>
      cases h with
      | mustReset h => exact ⟨by simp, .returning ((h _).imp fun _ => Or.imp_left .inl)⟩
  | case6 next succeeded =>
    rintro ⟨⟩
    cases h with
    | returning h =>
      cases h with
      | reset h => exact ⟨by simp, .returning (h.imp fun _ => Or.imp_left .inl)⟩
  | case7 => rintro ⟨⟩

end Probe

def Sent (w : World) (id : Nat) : Prop := ∃ h ∈ w.handled, h.request = id

/-- Ids are given out in the order of the lock, so the commands of the users follow one
another in blocks; a probe sends a PING and nothing else. -/
structure Kept (w : World) : Prop where
  tame : Tame w
  order : w.handled.Pairwise fun later earlier => earlier.request ≤ later.request
  handled : ∀ h ∈ w.handled, h.request < w.nextId
  current : ∀ r, w.holder = some r → r.id + 1 = w.nextId
  probes : ∀ id ∈ w.probes, id < w.nextId
  probing : ∀ r, w.holder = some r → r.id ∈ w.probes → ∃ b, r.branches = [b] ∧ Probing (Sent w r.id) b
  pings : ∀ h ∈ w.handled, h.request ∈ w.probes → h.command = ping
  reports : ∀ id status, (id, status) ∈ w.reports → id ∈ w.probes ∧ (status = .ready → Sent w id)

private theorem kept_new : Kept .new := by
  refine ⟨⟨?_, ?_⟩, .nil, ?_, ?_, ?_, ?_, ?_, ?_⟩ <;> simp [World.new]

private theorem Kept.lock {k : Nat} {user : User} (hw : Kept w) (ht : Tame (w.lock debug k user)) :
    Kept (w.lock debug k user) := by
  have hfresh : w.nextId ∉ w.probes := fun h => lt_irrefl _ (hw.probes _ h)
  refine ⟨ht, hw.order, fun h hm => Nat.lt_succ_of_lt (hw.handled h hm), ?_, ?_, ?_, ?_, ?_⟩
  · rintro r ⟨⟩
    rfl
  · intro id hid
    simp only [World.lock] at hid ⊢
    split at hid
    · obtain rfl | hid := List.mem_cons.mp hid
      · exact Nat.lt_succ_self _
      · exact Nat.lt_succ_of_lt (hw.probes id hid)
    · exact Nat.lt_succ_of_lt (hw.probes id hid)
  · rintro r ⟨⟩ hid
    simp only [World.lock, Request.new] at hid
    split at hid
    · subst ‹user = .probe›
      exact ⟨_, rfl, probing_new _⟩
    · exact absurd hid hfresh
  · intro h hm hid
    simp only [World.lock] at hid
    split at hid
    · obtain hid | hid := List.mem_cons.mp hid
      · exact absurd (hw.handled h hm) (hid ▸ lt_irrefl _)
      · exact hw.pings h hm hid
    · exact hw.pings h hm hid
  · intro id status hm
    obtain ⟨hid, hr⟩ := hw.reports id status hm
    refine ⟨?_, hr⟩
    simp only [World.lock]
    split
    · exact List.mem_cons_of_mem _ hid
    · exact hid

private theorem Kept.act {branch : Nat} {act : Act} {r : Request} {after : FredSession.World} (hw : Kept w)
    (hr : w.holder = some r) (ha : w.view.act r branch act = some after)
    (ht : Tame { w with session := after.session, holder := after.lease, handled := after.handled }) :
    Kept { w with session := after.session, holder := after.lease, handled := after.handled } := by
  obtain ⟨-, b, effect, hb, he, hh, hl⟩ := view_act ha
  have hids : ∀ h ∈ effect.handled, h.request = r.id := fun h hm => (Branch.step_handled he h hm).1
  have hbelow : ∀ h ∈ w.handled, h.request ≤ r.id := by
    intro h hm
    have := hw.handled h hm
    have := hw.current r hr
    omega
  have hsent : ∀ id, Sent w id → ∃ h ∈ after.handled, h.request = id := by
    rintro id ⟨h, hm, hid⟩
    exact ⟨h, hh ▸ List.mem_append_right _ hm, hid⟩
  have hprobe : r.id ∈ w.probes → r.branches = [b] ∧ branch = 0 ∧ Probing (Sent w r.id) b := by
    intro hid
    obtain ⟨c, hc, hp⟩ := hw.probing r hr hid
    rw [hc] at hb
    cases branch with
    | zero => cases hb; exact ⟨hc, rfl, hp⟩
    | succ n => cases hb
  refine ⟨ht, ?_, ?_, ?_, hw.probes, ?_, ?_, ?_⟩
  · simp only [hh, List.pairwise_append]
    refine ⟨List.pairwise_of_forall_mem_list fun x hx y hy => by rw [hids x hx, hids y hy], hw.order, ?_⟩
    intro x hx y hy
    rw [hids x hx]
    exact hbelow y hy
  · intro h hm
    rw [hh] at hm
    obtain hm | hm := List.mem_append.mp hm
    · rw [hids h hm, ← hw.current r hr]
      exact Nat.lt_succ_self _
    · exact hw.handled h hm
  · intro q hq
    rw [hl] at hq
    cases hq
    exact hw.current r hr
  · intro q hq hid
    rw [hl] at hq
    cases hq
    obtain ⟨hbs, rfl, hp⟩ := hprobe hid
    refine ⟨effect.branch, by rw [hbs]; rfl, (hp.step he).2.imp ?_⟩
    rintro (h | h)
    · exact hsent _ h
    · obtain ⟨x, hx⟩ := List.exists_mem_of_ne_nil _ h
      exact ⟨x, hh ▸ List.mem_append_left _ hx, hids x hx⟩
  · intro h hm hid
    rw [hh] at hm
    obtain hm | hm := List.mem_append.mp hm
    · rw [hids h hm] at hid
      exact ((hprobe hid).2.2.step he).1 h hm
    · exact hw.pings h hm hid
  · intro id status hm
    obtain ⟨hid, hready⟩ := hw.reports id status hm
    exact ⟨hid, fun h => hsent id (hready h)⟩

/-- A probe is reported as ready only if it returned a value. -/
theorem sent_of_ready {deadline : Nat} {branches : List Branch} {b : Branch} {result : CommandResult} {sent : Prop}
    {joined : Option (Except String CommandResult)} (hb : branches = [b]) (hp : Probing sent b)
    (hresult : probeResult branches = some result) (hj : joined = some (.ok result) ∨ joined = none)
    (hready : readinessStatus debug deadline joined = .ready) : sent := by
  obtain rfl | rfl := hj
  · subst hb
    cases hp with
    | unsent h => cases hresult
    | awaiting hr h => cases hresult
    | returning h =>
      cases h with
      | done h =>
        cases hresult
        refine h.resolve_right ?_
        rintro ⟨error, rfl⟩
        cases hready
      | mustReset h => cases hresult
      | reset h => cases hresult
  · cases hready

private theorem kept_step (hw : Kept w) (hs : Steps debug commandTimeout w e t) : Kept t := by
  have ht := tame_step hw.tame hs
  cases hs with
  | lock hu hl hk => exact hw.lock ht
  | act hr ha => exact hw.act hr ha ht
  | @report inTime r result joined hr hd hp hresult hj =>
    refine ⟨ht, hw.order, hw.handled, by simp, hw.probes, by simp, hw.pings, ?_⟩
    intro id status hm
    obtain hm | hm := List.mem_cons.mp hm
    · cases hm
      obtain ⟨b, hb, hprobing⟩ := hw.probing r hr hp
      exact ⟨hp, sent_of_ready hb hprobing hresult hj⟩
    · exact hw.reports id status hm
  | finish hr hd => exact ⟨ht, hw.order, hw.handled, by simp, hw.probes, by simp, hw.pings, hw.reports⟩
  | drop hr hd => exact ⟨ht, hw.order, hw.handled, by simp, hw.probes, by simp, hw.pings, hw.reports⟩
  | _ => exact ⟨ht, hw.order, hw.handled, hw.current, hw.probes, hw.probing, hw.pings, hw.reports⟩

/-- The holder agrees with the session, no command is handled inside the transaction of
another user, and a probe's in none at all. -/
structure Apart (w : World) : Prop where
  orderly : Orderly w.view
  attributed : Attributed w.view
  plain : ∀ h ∈ w.handled, h.request ∈ w.probes → h.session = .normal

private theorem apart_new : Apart .new := ⟨rfl, by simp [Attributed, World.view, World.new], by simp [World.new]⟩

private theorem apart_step (hw : Kept w) (ha : Apart w) (hu : Undisturbed w e) (hs : Steps debug commandTimeout w e t) :
    Apart t := by
  obtain ⟨ds, hds, hrun⟩ := view_step hw.tame hs
  obtain ⟨ho, hat⟩ :=
    (hds hu).invariant (fun v d u hv hd hstep => orderly_step hv hd hstep) hrun ⟨ha.orderly, ha.attributed⟩
  refine ⟨ho, hat, ?_⟩
  cases hs with
  | @lock k user hu hl hk =>
    intro h hm hid
    simp only [World.lock] at hid
    split at hid
    · obtain hid | hid := List.mem_cons.mp hid
      · exact absurd (hw.handled h hm) (hid ▸ lt_irrefl _)
      · exact ha.plain h hm hid
    · exact ha.plain h hm hid
  | @act branch act r after hr hact =>
    obtain ⟨-, b, effect, hb, he, hh, -⟩ := view_act hact
    intro h hm hid
    rw [hh] at hm
    obtain hm | hm := List.mem_append.mp hm
    · -- the session the command is handled in is the one its own probe stands on
      obtain ⟨hreq, hsession⟩ := Branch.step_handled he h hm
      rw [hreq] at hid
      obtain ⟨c, hc, hp⟩ := hw.probing r hr hid
      have hstands := ha.orderly
      simp only [Orderly, World.view, hr, hc] at hstands
      rw [hsession]
      exact hp.session_eq hstands
    · exact ha.plain h hm hid
  | _ => exact ha.plain

/-- For every interleaving of requests and readiness probes on one client: it is at any
time in a state that requests borrowing it one after another could have left it in, and
Redis handles the commands of its users one user after another. While the transactions
are undisturbed, the free client has a plain session, no command is handled inside the
transaction of another user, and a pool is reported ready only on a PING that was handled
outside every transaction. -/
theorem probes_kept_apart (hrun : (machine debug commandTimeout).run .new events = some w) :
    (FredSession.machine debug).Reaches .new w.view ∧
    (w.handled.Pairwise fun later earlier => earlier.request ≤ later.request) ∧
    ((machine debug commandTimeout).Along Undisturbed .new events →
      (w.holder = none → w.session = .normal) ∧
      (∀ h ∈ w.handled, h.session = .normal ∨ h.session = .inMulti h.request ∧ h.request ∉ w.probes) ∧
      ∀ id, (id, .ready) ∈ w.reports → ⟨id, ping, .normal⟩ ∈ w.handled) := by
  have hkept : Kept w ∧ (FredSession.machine debug).Reaches .new w.view := by
    apply Machine.run_invariant (I := fun w => Kept w ∧ (FredSession.machine debug).Reaches .new w.view) _ hrun
      ⟨kept_new, .refl _⟩
    rintro s e t ⟨hk, hreach⟩ hs
    have hsteps := steps_of_step hs
    obtain ⟨ds, -, hds⟩ := view_step hk.tame hsteps
    exact ⟨kept_step hk hsteps, hreach.trans ⟨ds, hds⟩⟩
  refine ⟨hkept.2, hkept.1.order, ?_⟩
  intro halong
  have hapart : Kept w ∧ Apart w := by
    refine halong.invariant (I := fun w => Kept w ∧ Apart w) ?_ hrun ⟨kept_new, apart_new⟩
    rintro s e t ⟨hk, ha⟩ hu hs
    exact ⟨kept_step hk (steps_of_step hs), apart_step hk ha hu (steps_of_step hs)⟩
  obtain ⟨hkept, hapart⟩ := hapart
  refine ⟨?_, ?_, ?_⟩
  · intro hfree
    have h := hapart.orderly
    simp only [Orderly, World.view, hfree] at h
    exact h
  · intro h hm
    by_cases hid : h.request ∈ w.probes
    · exact .inl (hapart.plain h hm hid)
    · exact (hapart.attributed h hm).imp_right fun hs => ⟨hs, hid⟩
  · intro id hm
    obtain ⟨hid, hsent⟩ := hkept.reports id .ready hm
    obtain ⟨⟨request, command, session⟩, hh, rfl⟩ := hsent rfl
    have hcommand : command = ping := hkept.pings _ hh hid
    have hsession : session = .normal := hapart.plain _ hh hid
    rw [← hcommand, ← hsession]
    exact hh

def pong : Resp3Frame := .simpleString [80, 79, 78, 71]

def overtaken : List Event :=
  [.lease (.transaction [⟨"SET", []⟩]), .lock 0, .act 0 (.poll (some okReply)), .probe, .act 0 (.answer none),
    .act 0 (.poll (some queuedReply)), .act 0 (.answer none), .act 0 (.poll (some (.array [okReply]))),
    .act 0 (.answer none), .finish true, .lock 0, .act 0 (.poll (some pong)), .act 0 (.answer none), .finish true]

theorem overtaken_kept_apart :
    ∃ w, (machine (fun _ => "") 5000).run .new overtaken = some w ∧ (1, .ready) ∈ w.reports ∧
      ⟨1, ping, .normal⟩ ∈ w.handled := by
  have h : ((machine (fun _ => "") 5000).run .new overtaken).map (fun w => w.reports.contains (1, .ready)) = some true := by
    decide +kernel
  obtain ⟨w, hrun, hm⟩ := Option.map_eq_some_iff.mp h
  have hready : (1, .ready) ∈ w.reports := List.contains_iff_mem.mp hm
  exact ⟨w, hrun, hready, ((probes_kept_apart hrun).2.2 (by decide +kernel)).2.2 1 hready⟩

end Srh.Adapters.ClientSharing
