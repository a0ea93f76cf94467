import Srh.Lib.Ascii
import Srh.Lib.Machine
import Srh.Adapters.FredExecutor
import Srh.Domain.Acl

/-! One pooled client and the requests that borrow it one after another. Redis
handles a command when it is sent, so an abandoned future has still changed the
session it leaves behind. -/
namespace Srh.Adapters.FredSession
open Srh.Lib Srh.Domain Srh.Ports FredExecutor

inductive Kind where
  | multi
  | exec
  | discard
  | other
  deriving DecidableEq, Repr

/-- Redis reads command names without regard to case. -/
def kind (command : RedisCommand) : Kind :=
  match Ascii.toUppercase command.name with
  | "MULTI" => .multi
  | "EXEC" => .exec
  | "DISCARD" => .discard
  | _ => .other

/-- Redis handles these at once, also in an open transaction. -/
def steering : List String := ["MULTI", "EXEC", "DISCARD", "WATCH", "QUIT", "RESET"]

def atOnce (command : RedisCommand) : Bool := Ascii.toUppercase command.name ∈ steering

theorem atOnce_of_kind {command : RedisCommand} (h : kind command ≠ .other) : atOnce command = true := by
  rw [kind] at h
  rw [atOnce]
  split at h <;> simp_all [steering]

theorem kind_of_atOnce {command : RedisCommand} (h : atOnce command = false) : kind command = .other := by
  by_contra hk
  rw [atOnce_of_kind hk] at h
  cases h

/-- An open transaction belongs to the request whose MULTI opened it. -/
inductive Session where
  | normal
  | inMulti (owner : Nat)
  deriving DecidableEq, Repr

def isOk : Resp3Frame → Bool
  | .simpleString data => data = [79, 75]
  | _ => false

/-- The session after a command of the given request that Redis answers with the
given reply. Redis never accepts a nested MULTI. -/
def process (request : Nat) (command : RedisCommand) (reply : Resp3Frame) : Session → Option Session
  | .normal =>
    match kind command with
    | .multi => some (if isOk reply then .inMulti request else .normal)
    | _ => some .normal
  | .inMulti owner =>
    match kind command with
    | .exec | .discard => some .normal
    | .multi => if isOk reply then none else some (.inMulti owner)
    | .other => some (.inMulti owner)

/-- One of the futures a request polls. A future that waits for an answer has its
command handled by Redis, with the reply on its way, or never sent. -/
inductive Branch where
  | ready (proc : Proc Outcome)
  | awaiting (command : RedisCommand) (reply : Option Resp3Frame)
      (next : Except FredError Resp3Frame → Proc Outcome)

structure Request where
  id : Nat
  resetStarted : Bool
  locked : Bool
  branches : List Branch

structure Handled where
  request : Nat
  command : RedisCommand
  session : Session
  deriving DecidableEq, Repr

structure World where
  session : Session
  lease : Option Request
  nextId : Nat
  handled : List Handled

def World.new : World := ⟨.normal, none, 0, []⟩

/-- One step of a future: its command is sent (or fails unsent), its answer or an
error arrives, it looks at the connection after a timeout, or its reset ends. -/
inductive Act where
  | poll (reply : Option Resp3Frame)
  | answer (error : Option FredError)
  | observe (connected : Bool)
  | reset (succeeded : Bool)

inductive Event where
  | borrow (operation : Operation)
  | lock
  | act (branch : Nat) (act : Act)
  | finish
  | drop
  | connectionLost

namespace Branch

def isDone : Branch → Bool
  | ready (.done _) => true
  | _ => false

def polled : Branch → Bool
  | ready (.raw _ _) => false
  | _ => true

def suspended : Branch → Bool
  | awaiting _ _ _ => true
  | ready (.reset _) => true
  | ready (.done _) => true
  | _ => false

structure Effect where
  session : Session
  resetStarted : Bool
  branch : Branch
  handled : List Handled

def step (request : Nat) (session : Session) (resetStarted : Bool) : Branch → Act → Option Effect
  | ready (.raw command next), .poll none => some ⟨session, resetStarted, awaiting command none next, []⟩
  | ready (.raw command next), .poll (some reply) =>
    (process request command reply session).map fun after =>
      ⟨after, resetStarted, awaiting command (some reply) next, [⟨request, command, session⟩]⟩
  | awaiting _ (some reply) next, .answer none => some ⟨session, resetStarted, ready (next (.ok reply)), []⟩
  | awaiting _ _ next, .answer (some error) => some ⟨session, resetStarted, ready (next (.error error)), []⟩
  | ready (.mustReset next), .observe connected =>
    some ⟨session, resetStarted || connected, ready (next (connected && !resetStarted)), []⟩
  | ready (.reset next), .reset succeeded =>
    some ⟨if succeeded then .normal else session, resetStarted, ready next, []⟩
  | _, _ => none

end Branch

/-- A future dropped here stops at an await point: at the operation lock, or with
every branch suspended and not all of them finished. -/
def Request.droppable (r : Request) : Bool :=
  !r.locked || (r.branches.all Branch.suspended && !r.branches.all Branch.isDone)

section Machine
variable (debug : RespValue → String)

def Request.new (id : Nat) (operation : Operation) : Request :=
  ⟨id, false, !takesLock operation, (FredExecutor.branches debug operation).map .ready⟩

/-- A pipeline hands its commands to the client in request order. -/
def Request.inTurn (r : Request) (branch : Nat) : Act → Bool
  | .poll _ => (r.branches.take branch).all Branch.polled
  | _ => true

def World.act (w : World) (r : Request) (branch : Nat) (act : Act) : Option World := do
  guard (r.locked && r.inTurn branch act)
  let before ← r.branches[branch]?
  let effect ← before.step r.id w.session r.resetStarted act
  some { w with
    session := effect.session
    lease := some { r with resetStarted := effect.resetStarted, branches := r.branches.set branch effect.branch }
    handled := effect.handled ++ w.handled }

/-- The commands of a request are not those that steer a transaction. -/
def machine : Machine World Event where
  step w
    | .borrow operation =>
      if w.lease.isNone ∧ ∀ command ∈ operation.commands, kind command = .other then
        some { w with lease := some (.new debug w.nextId operation), nextId := w.nextId + 1 }
      else none
    | .lock => do
      let r ← w.lease
      if r.locked then none else some { w with lease := some { r with locked := true } }
    | .act branch act => do
      let r ← w.lease
      w.act r branch act
    | .finish => do
      let r ← w.lease
      if r.locked ∧ r.branches.all Branch.isDone then some { w with lease := none } else none
    | .drop => do
      let r ← w.lease
      if r.droppable then some { w with lease := none } else none
    | .connectionLost => some { w with session := .normal }

end Machine

def Attributed (w : World) : Prop := ∀ h ∈ w.handled, h.session = .normal ∨ h.session = .inMulti h.request

def Isolated (w : World) : Prop := (w.lease = none → w.session = .normal) ∧ Attributed w

/-- The step loses what would have ended an open transaction: the answer to the
MULTI, or the EXEC or DISCARD itself. -/
def Branch.losesEnd : Branch → Act → Bool
  | ready (.raw command _), .poll none => kind command = .exec || kind command = .discard
  | awaiting command _ _, .answer (some _) => kind command = .multi
  | _, _ => false

def World.losesEnd (w : World) : Event → Bool
  | .drop => true
  | .act branch act => w.lease.any fun r => (r.branches[branch]?).any fun b => b.losesEnd act
  | _ => false

/-- While a transaction is open its request is not dropped, learns that its MULTI
was accepted, and gets its EXEC or DISCARD through. -/
def Undisturbed (w : World) (e : Event) : Prop := w.session = .normal ∨ w.losesEnd e = false

instance (w : World) (e : Event) : Decidable (Undisturbed w e) :=
  inferInstanceAs (Decidable (_ ∨ _))

section Procs
variable {ρ σ : Type}

def NoMulti : Proc ρ → Prop
  | .done _ => True
  | .raw command next => kind command ≠ .multi ∧ ∀ answer, NoMulti (next answer)
  | .mustReset next => ∀ must, NoMulti (next must)
  | .reset next => NoMulti next

def Closing : Proc ρ → Prop
  | .done _ => False
  | .raw command next =>
    match kind command with
    | .exec | .discard => True
    | .multi => False
    | .other => ∀ answer, Closing (next answer)
  | .mustReset next => ∀ must, Closing (next must)
  | .reset next => Closing next

private theorem noMulti_map (f : ρ → σ) {p : Proc ρ} (h : NoMulti p) : NoMulti (p.map f) := by
  induction p with
  | done result => trivial
  | raw command next ih => exact ⟨h.1, fun answer => ih answer (h.2 answer)⟩
  | mustReset next ih => exact fun must => ih must (h must)
  | reset next ih => exact ih h

private theorem closing_map (f : ρ → σ) {p : Proc ρ} (h : Closing p) : Closing (p.map f) := by
  induction p with
  | done result => exact h
  | raw command next ih =>
    simp only [Proc.map, Closing] at h ⊢
    cases hk : kind command with
    | other =>
      rw [hk] at h
      exact fun answer => ih answer (h answer)
    | multi => rw [hk] at h; exact h
    | exec => trivial
    | discard => trivial
  | mustReset next ih => exact fun must => ih must (h must)
  | reset next ih => exact ih h

/-- What survives the question and the reset holds of every answer when it holds of
every way to go on. -/
theorem answered_of {P : Proc ρ → Prop} (hm : ∀ next, (∀ must, P (next must)) → P (.mustReset next))
    (hr : ∀ p, P p → P (.reset p)) {next : Except ExecError Resp3Frame → Proc ρ} (h : ∀ reply, P (next reply))
    (answer : Except FredError Resp3Frame) : P (answered next answer) := by
  cases answer with
  | ok frame => exact h _
  | error error =>
    rw [answered, mapError]
    split
    · apply hm
      intro must
      cases must with
      | false => exact h _
      | true => exact hr _ (h _)
    · exact h _

private theorem noMulti_answered {next : Except ExecError Resp3Frame → Proc ρ} (h : ∀ reply, NoMulti (next reply))
    (answer : Except FredError Resp3Frame) : NoMulti (answered next answer) :=
  answered_of (fun _ hn => hn) (fun _ hp => hp) h answer

private theorem noMulti_call {command : RedisCommand} {next : Except ExecError Resp3Frame → Proc ρ}
    (hc : kind command ≠ .multi) (h : ∀ reply, NoMulti (next reply)) : NoMulti (call command next) :=
  ⟨hc, noMulti_answered h⟩

private theorem closing_call {command : RedisCommand} {next : Except ExecError Resp3Frame → Proc ρ}
    (hc : kind command = .other) (h : ∀ reply, Closing (next reply)) : Closing (call command next) := by
  simp only [call, Closing, hc]
  exact answered_of (fun _ hn => hn) (fun _ hp => hp) h

private theorem noMulti_executeUnlocked {command : RedisCommand} (hc : kind command ≠ .multi) :
    NoMulti (executeUnlocked command) :=
  noMulti_call hc fun _ => trivial

variable (debug : RespValue → String)

private theorem noMulti_queue {commands : List RedisCommand} (hc : ∀ command ∈ commands, kind command = .other) :
    NoMulti (queue debug commands) := by
  induction commands with
  | nil =>
    apply noMulti_call (by decide)
    intro reply
    split
    · trivial
    · trivial
    · trivial
    · split <;> trivial
  | cons command commands ih =>
    apply noMulti_call (by simp [hc command])
    intro reply
    split
    · exact ih fun c h => hc c (List.mem_cons_of_mem _ h)
    · exact noMulti_call (by decide) fun _ => trivial
    · exact noMulti_call (by decide) fun _ => trivial

private theorem closing_queue {commands : List RedisCommand} (hc : ∀ command ∈ commands, kind command = .other) :
    Closing (queue debug commands) := by
  induction commands with
  | nil => trivial
  | cons command commands ih =>
    apply closing_call (hc command List.mem_cons_self)
    intro reply
    split
    · exact ih fun c h => hc c (List.mem_cons_of_mem _ h)
    · trivial
    · trivial

def Opens (next : Except FredError Resp3Frame → Proc ρ) : Prop :=
  (∀ answer, NoMulti (next answer)) ∧ ∀ frame, isOk frame → Closing (next (.ok frame))

private theorem transaction_opens {commands : List RedisCommand} (hn : commands ≠ [])
    (hc : ∀ command ∈ commands, kind command = .other) :
    ∃ next, transaction debug commands = .raw (control "MULTI") next ∧ Opens next := by
  rw [transaction, if_neg hn]
  refine ⟨_, rfl, ?_, ?_⟩
  · apply noMulti_answered
    intro reply
    split
    · trivial
    · exact noMulti_queue debug hc
    · trivial
  · intro frame hf
    cases frame with
    | simpleString data =>
      have hd : data = [79, 75] := of_decide_eq_true hf
      subst hd
      exact closing_queue debug hc
    | _ => cases hf

end Procs

namespace Branch

def Quiet : Branch → Prop
  | ready p => NoMulti p
  | awaiting _ _ next => ∀ answer, NoMulti (next answer)

def Closes : Branch → Prop
  | ready p => Closing p
  | awaiting command reply next =>
    match kind command with
    | .multi => ∃ frame, reply = some frame ∧ Closing (next (.ok frame))
    | .other => ∀ answer, Closing (next answer)
    | _ => False

end Branch

/-- The session and the futures of the request with the given id agree: a quiet
request on a plain session, a transaction about to open, or one that is open and
will be closed. -/
inductive Stands (request : Nat) : Session → List Branch → Prop where
  | quiet {branches : List Branch} (h : ∀ b ∈ branches, b.Quiet) : Stands request .normal branches
  | opening {command : RedisCommand} {next : Except FredError Resp3Frame → Proc Outcome}
      (hk : kind command = .multi) (h : Opens next) : Stands request .normal [.ready (.raw command next)]
  | within {b : Branch} (hq : b.Quiet) (hc : b.Closes) : Stands request (.inMulti request) [b]

private theorem stands_new (debug : RespValue → String) (id : Nat) {operation : Operation}
    (hc : ∀ command ∈ operation.commands, kind command = .other) :
    Stands id .normal (Request.new debug id operation).branches := by
  cases operation with
  | execute command =>
    apply Stands.quiet
    intro b hb
    obtain rfl := List.mem_singleton.mp hb
    exact noMulti_map _ (noMulti_executeUnlocked (by simp [hc command List.mem_cons_self]))
  | pipeline commands =>
    apply Stands.quiet
    intro b hb
    simp only [Request.new, FredExecutor.branches, List.map_map, List.mem_map] at hb
    obtain ⟨command, hm, rfl⟩ := hb
    exact noMulti_map _ (noMulti_executeUnlocked (by simp [hc command hm]))
  | transaction commands =>
    by_cases hn : commands = []
    · apply Stands.quiet
      intro b hb
      subst hn
      obtain rfl := List.mem_singleton.mp hb
      trivial
    · obtain ⟨next, hp, hq, hcl⟩ := transaction_opens debug hn hc
      simp only [Request.new, FredExecutor.branches, hp, Proc.map, List.map_cons, List.map_nil]
      exact .opening rfl ⟨fun answer => noMulti_map _ (hq answer), fun f hf => closing_map _ (hcl f hf)⟩

section Step
variable {request branch : Nat} {session : Session} {flag : Bool} {b : Branch} {branches : List Branch} {act : Act}
  {effect : Branch.Effect}

/-- A command is handled in the session as it was just before. -/
theorem Branch.step_handled (hs : b.step request session flag act = some effect) :
    ∀ h ∈ effect.handled, h.request = request ∧ h.session = session := by
  revert hs
  fun_cases Branch.step with
  | case2 =>
    intro hs
    obtain ⟨after, _, rfl⟩ := Option.map_eq_some_iff.mp hs
    simp
  | case7 => exact nofun
  | _ => rintro ⟨⟩; simp

private theorem Branch.Quiet.step (hq : b.Quiet) (hs : b.step request session flag act = some effect) :
    effect.branch.Quiet := by
  revert hs
  fun_cases Branch.step with
  | case2 =>
    intro hs
    obtain ⟨after, _, rfl⟩ := Option.map_eq_some_iff.mp hs
    exact hq.2
  | case7 => exact nofun
  | case1 => rintro ⟨⟩; exact hq.2
  | case6 => rintro ⟨⟩; exact hq
  | _ => rintro ⟨⟩; exact hq _

/-- A plain session stays plain under a quiet future. -/
theorem Branch.Quiet.step_normal (hq : b.Quiet) (hs : b.step request .normal flag act = some effect) :
    effect.session = .normal := by
  revert hs
  fun_cases Branch.step with
  | case2 =>
    intro hs
    obtain ⟨after, ha, rfl⟩ := Option.map_eq_some_iff.mp hs
    simp only [process] at ha
    split at ha
    · exact absurd ‹_› hq.1
    · exact (Option.some.inj ha).symm
  | case7 => exact nofun
  | case6 => rintro ⟨⟩; simp
  | _ => rintro ⟨⟩; rfl

/-- An open transaction stays open with a future that closes it, or it is closed. -/
theorem Branch.Closes.step (hq : b.Quiet) (hc : b.Closes) (hl : b.losesEnd act = false)
    (hs : b.step request (.inMulti request) flag act = some effect) :
    effect.session = .normal ∨ effect.session = .inMulti request ∧ effect.branch.Closes := by
  revert hs hl
  fun_cases Branch.step with
  | case1 command next =>
    rintro hl ⟨⟩
    refine .inr ⟨rfl, ?_⟩
    cases hk : kind command <;> simp_all [Branch.losesEnd, Branch.Closes, Closing]
  | case2 command next reply =>
    intro _ hs
    obtain ⟨after, ha, rfl⟩ := Option.map_eq_some_iff.mp hs
    have hn := hq.1
    cases hk : kind command <;> simp_all [process, Branch.Closes, Closing]
  | case3 command reply next =>
    rintro _ ⟨⟩
    refine .inr ⟨rfl, ?_⟩
    cases hk : kind command <;> simp_all [Branch.Closes]
  | case4 command reply next error =>
    rintro hl ⟨⟩
    refine .inr ⟨rfl, ?_⟩
    cases hk : kind command <;> simp_all [Branch.losesEnd, Branch.Closes]
  | case5 next connected =>
    rintro _ ⟨⟩
    exact .inr ⟨rfl, hc _⟩
  | case6 next succeeded =>
    rintro _ ⟨⟩
    cases succeeded with
    | true => exact .inl rfl
    | false => exact .inr ⟨rfl, hc⟩
  | case7 => exact nofun

/-- Sending the MULTI opens the transaction if it is accepted. -/
theorem stands_opened {command : RedisCommand} {next : Except FredError Resp3Frame → Proc Outcome}
    (hk : kind command = .multi) (h : Opens next)
    (hs : (Branch.ready (.raw command next)).step request .normal flag act = some effect) :
    Stands request effect.session [effect.branch] := by
  have hq : ∀ reply, ∀ b ∈ [Branch.awaiting command reply next], b.Quiet := by
    intro reply b hb
    obtain rfl := List.mem_singleton.mp hb
    exact h.1
  match act, hs with
  | .poll none, hs => cases hs; exact .quiet (hq none)
  | .poll (some reply), hs =>
    obtain ⟨after, ha, rfl⟩ := Option.map_eq_some_iff.mp hs
    simp only [process, hk, Option.some.injEq] at ha
    subst ha
    split
    · exact .within h.1 (by simpa [Branch.Closes, hk] using h.2 reply ‹_›)
    · exact .quiet (hq _)

private theorem Stands.session_eq (h : Stands request session branches) : session = .normal ∨ session = .inMulti request := by
  cases h with
  | quiet h => exact .inl rfl
  | opening hk h => exact .inl rfl
  | within hq hc => exact .inr rfl

private theorem Stands.step (h : Stands request session branches) (hb : branches[branch]? = some b)
    (hu : session = .normal ∨ b.losesEnd act = false) (hs : b.step request session flag act = some effect) :
    Stands request effect.session (branches.set branch effect.branch) := by
  cases h with
  | quiet h =>
    have hq := h b (List.mem_of_getElem? hb)
    rw [hq.step_normal hs]
    apply Stands.quiet
    intro c hc
    obtain hc | rfl := List.mem_or_eq_of_mem_set hc
    · exact h c hc
    · exact hq.step hs
  | @opening command next hk h =>
    obtain ⟨rfl, rfl⟩ : branch = 0 ∧ b = .ready (.raw command next) := by
      cases branch <;> simp_all
    exact stands_opened hk h hs
  | @within c hq hc =>
    obtain ⟨rfl, rfl⟩ : branch = 0 ∧ b = c := by
      cases branch <;> simp_all
    have hl := hu.resolve_left nofun
    rcases Branch.Closes.step hq hc hl hs with hn | ⟨he, hc⟩
    · rw [hn]
      apply Stands.quiet
      intro c hm
      obtain rfl := List.mem_singleton.mp hm
      exact hq.step hs
    · rw [he]
      exact .within (hq.step hs) hc

end Step

/-- The request that holds the client agrees with its session; a free client has a
plain one. -/
def Orderly (w : World) : Prop :=
  match w.lease with
  | none => w.session = .normal
  | some r => Stands r.id w.session r.branches

section Ends
variable {request : Nat} {session : Session} {branches : List Branch}

private theorem Stands.lost (h : Stands request session branches) : Stands request .normal branches := by
  cases h with
  | quiet h => exact .quiet h
  | opening hk h => exact .opening hk h
  | within hq hc =>
    apply Stands.quiet
    intro b hb
    obtain rfl := List.mem_singleton.mp hb
    exact hq

private theorem Stands.done (h : Stands request session branches) (hd : branches.all Branch.isDone) : session = .normal := by
  cases h with
  | quiet h => rfl
  | opening hk h => rfl
  | @within b hq hc =>
    simp only [List.all_cons, List.all_nil, Bool.and_true] at hd
    match b, hd with
    | .ready (.done _), _ => exact hc.elim

end Ends

theorem orderly_step {debug : RespValue → String} {w t : World} {e : Event} (h : Orderly w ∧ Attributed w)
    (hu : Undisturbed w e) (hs : (machine debug).step w e = some t) : Orderly t ∧ Attributed t := by
  obtain ⟨ho, ha⟩ := h
  simp only [Orderly] at ho
  cases e with
  | borrow operation =>
    simp only [machine, Option.ite_none_right_eq_some, Option.isNone_iff_eq_none, Option.some.injEq] at hs
    obtain ⟨⟨hl, hc⟩, rfl⟩ := hs
    rw [hl] at ho
    refine ⟨?_, ha⟩
    simp only [Orderly, ho]
    exact stands_new debug _ hc
  | connectionLost =>
    cases hs
    refine ⟨?_, ha⟩
    simp only [Orderly]
    split
    · trivial
    · rename_i r hr
      rw [hr] at ho
      exact ho.lost
  | lock =>
    obtain ⟨r, hr, hs⟩ := Option.bind_eq_some_iff.mp hs
    simp only [Option.ite_none_left_eq_some, Option.some.injEq] at hs
    obtain ⟨-, rfl⟩ := hs
    rw [hr] at ho
    exact ⟨ho, ha⟩
  | finish =>
    obtain ⟨r, hr, hs⟩ := Option.bind_eq_some_iff.mp hs
    simp only [Option.ite_none_right_eq_some, Option.some.injEq] at hs
    obtain ⟨⟨-, hd⟩, rfl⟩ := hs
    rw [hr] at ho
    exact ⟨ho.done hd, ha⟩
  | drop =>
    obtain ⟨r, hr, hs⟩ := Option.bind_eq_some_iff.mp hs
    simp only [Option.ite_none_right_eq_some, Option.some.injEq] at hs
    obtain ⟨-, rfl⟩ := hs
    exact ⟨hu.resolve_right (by simp [World.losesEnd]), ha⟩
  | act branch act =>
    obtain ⟨r, hr, hs⟩ := Option.bind_eq_some_iff.mp hs
    rw [hr] at ho
    simp only [World.act, Option.bind_eq_bind, Option.bind_eq_some_iff, Option.some.injEq] at hs
    obtain ⟨-, -, b, hb, effect, he, rfl⟩ := hs
    have hl : w.session = .normal ∨ b.losesEnd act = false := by
      simpa [Undisturbed, World.losesEnd, hr, hb] using hu
    refine ⟨ho.step hb hl he, ?_⟩
    intro h hm
    obtain hm | hm := List.mem_append.mp hm
    · obtain ⟨hi, hse⟩ := Branch.step_handled he h hm
      rw [hse, hi]
      exact ho.session_eq
    · exact ha h hm

/-- Along every run that keeps its transactions undisturbed the client is isolated
between the requests that borrow it. -/
theorem isolated_of_undisturbed (debug : RespValue → String) (events : List Event) (w : World)
    (hu : (machine debug).Along Undisturbed .new events) (hr : (machine debug).run .new events = some w) :
    Isolated w := by
  have h : Orderly w ∧ Attributed w :=
    hu.invariant (fun s e t hs ok => orderly_step hs ok) hr ⟨rfl, nofun⟩
  refine ⟨?_, h.2⟩
  intro hl
  have ho := h.1
  simp only [Orderly, hl] at ho
  exact ho

def okReply : Resp3Frame := .simpleString [79, 75]

def queuedReply : Resp3Frame := .simpleString [81, 85, 69, 85, 69, 68]

def nextGet (reply : Resp3Frame) : List Event :=
  [.borrow (.execute ⟨"GET", []⟩), .lock, .act 0 (.poll (some reply))]

def exchange : List Event :=
  [.borrow (.transaction [⟨"SET", []⟩]), .lock, .act 0 (.poll (some okReply)), .act 0 (.answer none),
    .act 0 (.poll (some queuedReply)), .act 0 (.answer none), .act 0 (.poll (some (.array [okReply]))), .act 0 (.answer none),
    .finish] ++ nextGet .null

theorem isolated_of_undisturbed_exchange :
    ∃ w, (machine fun _ => "").run .new exchange = some w ∧ w.handled.length = 4 ∧ Isolated w := by
  have h : ((machine fun _ => "").run .new exchange).map (fun w => w.handled.length) = some 4 := by decide +kernel
  obtain ⟨w, hr, hl⟩ := Option.map_eq_some_iff.mp h
  exact ⟨w, hr, hl, isolated_of_undisturbed _ exchange w (by decide +kernel) hr⟩

def abandoned : List Event :=
  [.borrow (.transaction [⟨"SET", []⟩]), .lock, .act 0 (.poll (some okReply)), .act 0 (.answer none),
    .act 0 (.poll (some queuedReply)), .drop]

/-- A dropped transaction leaves its MULTI open on the free client, and the GET of
the next request is handled inside it. -/
theorem abandoned_transaction_captures_next :
    (∃ w, (machine fun _ => "").run .new abandoned = some w ∧ w.lease.isNone ∧ w.session = .inMulti 0) ∧
    ∃ w, (machine fun _ => "").run .new (abandoned ++ nextGet queuedReply) = some w ∧
      ⟨1, ⟨"GET", []⟩, .inMulti 0⟩ ∈ w.handled := by
  have free : ((machine fun _ => "").run .new abandoned).map (fun w => (w.lease.isNone, w.session)) =
      some (true, .inMulti 0) := by decide +kernel
  have sent : ((machine fun _ => "").run .new (abandoned ++ nextGet queuedReply)).map
      (fun w => decide (⟨1, ⟨"GET", []⟩, .inMulti 0⟩ ∈ w.handled)) = some true := by decide +kernel
  obtain ⟨w, hr, hw⟩ := Option.map_eq_some_iff.mp free
  obtain ⟨v, hv, hm⟩ := Option.map_eq_some_iff.mp sent
  obtain ⟨hl, hs⟩ := Prod.mk.inj hw
  exact ⟨⟨w, hr, hl, hs⟩, v, hv, of_decide_eq_true hm⟩

end Srh.Adapters.FredSession
