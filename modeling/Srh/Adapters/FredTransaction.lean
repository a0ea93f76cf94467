import Srh.Adapters.FredSession

/-! The messages of a transaction and the answers to them, whatever the other end does,
and what a Redis connection executes of them. -/
namespace Srh.Adapters.FredTransaction
open Srh.Lib Srh.Domain Srh.Ports FredExecutor FredSession

abbrev Answer := Except FredError Resp3Frame

abbrev Trace := List (RedisCommand × Answer)

/-- The other end of the client: how it comes to answer a message, with the state it
goes to and the commands it executes, and what a forced reconnection does to it. -/
structure Server (S : Type) where
  serves : S → RedisCommand → Answer → S → List RedisCommand → Prop
  resets : S → S → Prop

section Exchanges
variable {S ρ : Type} (server : Server S)

inductive Exchange : S → Proc ρ → Trace → List RedisCommand → ρ → Prop
  | done {s : S} (result : ρ) : Exchange s (.done result) [] [] result
  | raw {s t : S} {command : RedisCommand} {next : Answer → Proc ρ} {answer : Answer} {now later : List RedisCommand}
      {trace : Trace} {result : ρ} (hs : server.serves s command answer t now)
      (h : Exchange t (next answer) trace later result) :
      Exchange s (.raw command next) ((command, answer) :: trace) (now ++ later) result
  | mustReset {s : S} {next : Bool → Proc ρ} {trace : Trace} {executed : List RedisCommand} {result : ρ}
      (must : Bool) (h : Exchange s (next must) trace executed result) :
      Exchange s (.mustReset next) trace executed result
  | reset {s t : S} {next : Proc ρ} {trace : Trace} {executed : List RedisCommand} {result : ρ}
      (hr : server.resets s t) (h : Exchange t next trace executed result) :
      Exchange s (.reset next) trace executed result

/-- The run against given answers, counted from the n-th on. Whether a timeout resets
the connection is given as well. -/
def converse (answers : Nat → Answer) (resets : Nat → Bool) : Nat → Proc ρ → Trace × ρ
  | _, .done result => ([], result)
  | n, .raw command next =>
    let rest := converse answers resets (n + 1) (next (answers n))
    ((command, answers n) :: rest.1, rest.2)
  | n, .mustReset next => converse answers resets n (next (resets n))
  | n, .reset next => converse answers resets n next

def anyServer : Server Unit := ⟨fun _ _ _ _ executed => executed = [], fun _ _ => True⟩

private theorem converse_exchange (answers : Nat → Answer) (resets : Nat → Bool) (n : Nat) (proc : Proc ρ) :
    Exchange anyServer () proc (converse answers resets n proc).1 [] (converse answers resets n proc).2 := by
  induction proc generalizing n with
  | done result => exact .done result
  | raw command next ih =>
    have hs : anyServer.serves () command (answers n) () [] := rfl
    exact .raw hs (ih (answers n) (n + 1))
  | mustReset next ih => exact .mustReset (resets n) (ih (resets n) n)
  | reset next ih =>
    have hr : anyServer.resets () () := trivial
    exact .reset hr (ih n)

def mapped : Answer → Except ExecError Resp3Frame
  | .ok frame => .ok frame
  | .error error => .error (mapFredError error)

def received (answer : Answer) : CommandResult := (mapped answer).bind fredFrameToResp

variable {server} {s : S} {command : RedisCommand} {next : Except ExecError Resp3Frame → Proc ρ} {trace : Trace}
  {executed : List RedisCommand} {result : ρ}

private theorem Exchange.of_done {r : ρ} (h : Exchange server s (.done r) trace executed result) :
    trace = [] ∧ executed = [] ∧ result = r := by
  cases h
  exact ⟨rfl, rfl, rfl⟩

private theorem Exchange.of_mapError {error : FredError} {after : ExecError → Proc ρ}
    (h : Exchange server s (mapError error after) trace executed result) :
    ∃ t, Exchange server t (after (mapFredError error)) trace executed result := by
  rw [mapError] at h
  split at h
  · rename_i htimeout
    rw [htimeout]
    cases h with
    | mustReset must h =>
      cases must with
      | false => exact ⟨s, h⟩
      | true =>
        cases h with
        | reset hr h => exact ⟨_, h⟩
  · exact ⟨s, h⟩

/-- A command is one message. Only after an error may the connection be another one. -/
theorem Exchange.of_call (h : Exchange server s (call command next) trace executed result) :
    ∃ answer t u now rest later, trace = (command, answer) :: rest ∧ executed = now ++ later ∧
      server.serves s command answer t now ∧ (∀ value, received answer = .ok value → u = t) ∧
      Exchange server u (next (mapped answer)) rest later result := by
  cases h with
  | @raw _ t _ _ answer now later rest _ hs h =>
    cases answer with
    | ok frame => exact ⟨.ok frame, t, t, now, rest, later, rfl, rfl, hs, fun _ _ => rfl, h⟩
    | error error =>
      rw [answered] at h
      obtain ⟨u, h⟩ := h.of_mapError
      exact ⟨.error error, t, u, now, rest, later, rfl, rfl, hs, (fun _ hr => by cases hr), h⟩

end Exchanges

/-! ## The course of a transaction -/

section Courses
variable (debug : RespValue → String)

def failure (context : String → String) : CommandResult → ExecError
  | .error error => error
  | .ok response => protocolViolation (context (debug response))

def execResult (answer : Answer) : BatchResult :=
  match mapped answer with
  | .error error => .error error
  | .ok (.array data) => .ok (data.map (frameWithinDepth Convert.maxDepth))
  | .ok .null => .error (.redis "EXECABORT Transaction discarded because of previous errors.")
  | .ok frame =>
    match fredFrameToResp frame with
    | .error error => .error error
    | .ok _ => .error (protocolViolation "EXEC returned a non-array response")

def AllQueued (queued : Trace) : Prop := ∀ message ∈ queued, received message.2 = .ok (.simple "QUEUED")

/-- The messages after MULTI: commands that are queued, and then DISCARD after the first
that is not, or EXEC after all of them. -/
inductive Queueing (commands : List RedisCommand) : Trace → BatchResult → Prop
  | discarded {queued : Trace} {command : RedisCommand} {rest : List RedisCommand} {answer discard : Answer}
      (hc : commands = queued.map Prod.fst ++ command :: rest) (hq : AllQueued queued)
      (h : received answer ≠ .ok (.simple "QUEUED")) :
      Queueing commands (queued ++ [(command, answer), (control "DISCARD", discard)])
        (.error (failure debug (fun response => "transaction command returned " ++ response ++ " instead of QUEUED")
          (received answer)))
  | executed {queued : Trace} {exec : Answer} (hc : commands = queued.map Prod.fst) (hq : AllQueued queued) :
      Queueing commands (queued ++ [(control "EXEC", exec)]) (execResult exec)

/-- The messages of a transaction. Without OK for an answer, MULTI is the only one. -/
inductive Course (commands : List RedisCommand) : Trace → BatchResult → Prop
  | unopened {multi : Answer} (h : received multi ≠ .ok (.simple "OK")) :
      Course commands [(control "MULTI", multi)]
        (.error (failure debug (fun response => "MULTI returned " ++ response) (received multi)))
  | opened {multi : Answer} {trace : Trace} {result : BatchResult} (h : received multi = .ok (.simple "OK"))
      (hq : Queueing debug commands trace result) : Course commands ((control "MULTI", multi) :: trace) result

variable {debug} {commands : List RedisCommand} {trace : Trace} {result : BatchResult}

private theorem AllQueued.cons {queued : Trace} {command : RedisCommand} {answer : Answer}
    (h : received answer = .ok (.simple "QUEUED")) (hq : AllQueued queued) :
    AllQueued ((command, answer) :: queued) := by
  intro message hm
  obtain rfl | hm := List.mem_cons.mp hm
  · exact h
  · exact hq message hm

private theorem Queueing.cons {command : RedisCommand} {answer : Answer} (h : received answer = .ok (.simple "QUEUED"))
    (hq : Queueing debug commands trace result) :
    Queueing debug (command :: commands) ((command, answer) :: trace) result := by
  cases hq with
  | @discarded queued refused rest _ _ hc hq hn =>
    have hc : command :: commands = ((command, answer) :: queued).map Prod.fst ++ refused :: rest := by simp [hc]
    exact .discarded hc (hq.cons h) hn
  | @executed queued _ hc hq =>
    have hc : command :: commands = ((command, answer) :: queued).map Prod.fst := by simp [hc]
    exact .executed hc (hq.cons h)

section Shape
variable {S : Type} {server : Server S} {s : S} {executed : List RedisCommand}

private theorem queue_discards {command : RedisCommand} {answer : Answer} {error : ExecError}
    (hn : received answer ≠ .ok (.simple "QUEUED"))
    (he : error = failure debug (fun response => "transaction command returned " ++ response ++ " instead of QUEUED")
      (received answer))
    (h : Exchange server s (call (control "DISCARD") fun _ => .done (.error error)) trace executed result) :
    Queueing debug (command :: commands) ((command, answer) :: trace) result := by
  obtain ⟨discard, _, _, _, rest, _, rfl, -, -, -, h⟩ := h.of_call
  obtain ⟨rfl, -, rfl⟩ := h.of_done
  have hc : command :: commands = ([] : Trace).map Prod.fst ++ command :: commands := rfl
  rw [he]
  exact .discarded hc (by simp [AllQueued]) hn

private theorem queue_course (h : Exchange server s (queue debug commands) trace executed result) :
    Queueing debug commands trace result := by
  induction commands generalizing s trace executed with
  | nil =>
    rw [queue] at h
    obtain ⟨exec, _, u, _, rest, later, rfl, -, -, -, h⟩ := h.of_call
    have hd : Exchange server u (.done (execResult exec)) rest later result := by
      rw [execResult]
      split at h <;> simp_all
      split at h <;> simp_all
    obtain ⟨rfl, -, rfl⟩ := hd.of_done
    have hc : [] = ([] : Trace).map Prod.fst := rfl
    exact .executed hc (by simp [AllQueued])
  | cons command commands ih =>
    rw [queue] at h
    obtain ⟨answer, _, _, _, rest, _, rfl, -, -, -, h⟩ := h.of_call
    split at h
    · rename_i hq
      exact (ih h).cons hq
    · rename_i response hn hr
      refine queue_discards (fun hq => ?_) ?_ h
      · exact hn (Except.ok.inj (hr.symm.trans hq))
      · rw [received, hr, failure]
    · rename_i error hr
      refine queue_discards (fun hq => ?_) ?_ h
      · cases hr.symm.trans hq
      · rw [received, hr, failure]

private theorem transaction_course (hn : commands ≠ [])
    (h : Exchange server s (transaction debug commands) trace executed result) :
    Course debug commands trace result := by
  rw [transaction, if_neg hn] at h
  obtain ⟨multi, _, _, _, rest, _, rfl, -, -, -, h⟩ := h.of_call
  split at h
  · rename_i error hr
    obtain ⟨rfl, -, rfl⟩ := h.of_done
    have he : error = failure debug (fun response => "MULTI returned " ++ response) (received multi) := by
      rw [received, hr, failure]
    rw [he]
    refine .unopened fun hq => ?_
    cases hr.symm.trans hq
  · rename_i hq
    exact .opened hq (queue_course h)
  · rename_i response hne hr
    obtain ⟨rfl, -, rfl⟩ := h.of_done
    have he : protocolViolation ("MULTI returned " ++ debug response) =
        failure debug (fun response => "MULTI returned " ++ response) (received multi) := by
      rw [received, hr, failure]
    rw [he]
    exact .unopened fun hq => hne (Except.ok.inj (hr.symm.trans hq))

end Shape

private theorem execResult_ok {answer : Answer} {slots : List CommandResult} :
    execResult answer = .ok slots ↔
      ∃ data, answer = .ok (.array data) ∧ slots = data.map (frameWithinDepth Convert.maxDepth) := by
  constructor
  · intro h
    rw [execResult] at h
    split at h
    · cases h
    · rename_i data hm
      cases answer with
      | error error => cases hm
      | ok frame =>
        cases hm
        exact ⟨data, rfl, (Except.ok.inj h).symm⟩
    · cases h
    · split at h <;> cases h
  · rintro ⟨data, rfl, rfl⟩
    rfl

/-- The last message and its answer decide whether the transaction succeeds. -/
theorem Course.ok_iff (h : Course debug commands trace result) (slots : List CommandResult) :
    result = .ok slots ↔ ∃ data, trace.getLast? = some (control "EXEC", .ok (.array data)) ∧
      slots = data.map (frameWithinDepth Convert.maxDepth) := by
  cases h with
  | unopened h => simp [FredExecutor.control]
  | opened h hq =>
    cases hq with
    | discarded hc hq hn => simp [FredExecutor.control, List.getLast?_cons]
    | executed hc hq => simp [execResult_ok, List.getLast?_cons]

end Courses

/-! ## What Redis executes -/

inductive Connection where
  | plain
  | opened (queued : List RedisCommand)

def replies (text : String) (reply : Resp3Frame) : Prop := fredFrameToResp reply = .ok (.simple text)

/-- How Redis handles a command: its reply, the connection after it and what is executed.
Only a command that it has put in the queue of an open transaction is answered QUEUED
there, and only EXEC runs the queue. -/
inductive Handles : Connection → RedisCommand → Resp3Frame → Connection → List RedisCommand → Prop
  | begun {command : RedisCommand} {reply : Resp3Frame} (hk : kind command = .multi) (h : replies "OK" reply) :
      Handles .plain command reply (.opened []) []
  | notBegun {connection : Connection} {command : RedisCommand} {reply : Resp3Frame} (hk : kind command = .multi)
      (h : ¬ replies "OK" reply) : Handles connection command reply connection []
  | run {command : RedisCommand} {reply : Resp3Frame} (hk : kind command = .other) :
      Handles .plain command reply .plain [command]
  | rejected {command : RedisCommand} {reply : Resp3Frame} (hk : kind command = .other) :
      Handles .plain command reply .plain []
  | queued {commands : List RedisCommand} {command : RedisCommand} {reply : Resp3Frame} (hk : atOnce command = false)
      (h : replies "QUEUED" reply) : Handles (.opened commands) command reply (.opened (commands ++ [command])) []
  | refused {commands : List RedisCommand} {command : RedisCommand} {reply : Resp3Frame} (hk : atOnce command = false)
      (h : ¬ replies "QUEUED" reply) : Handles (.opened commands) command reply (.opened commands) []
  | immediate {commands : List RedisCommand} {command : RedisCommand} {reply : Resp3Frame} {after : Connection}
      (hk : kind command = .other) (h : atOnce command = true) :
      Handles (.opened commands) command reply after [command]
  | executed {commands : List RedisCommand} {command : RedisCommand} {reply : Resp3Frame} (hk : kind command = .exec) :
      Handles (.opened commands) command reply .plain commands
  | aborted {connection : Connection} {command : RedisCommand} {reply : Resp3Frame} (hk : kind command = .exec) :
      Handles connection command reply .plain []
  | discarded {connection : Connection} {command : RedisCommand} {reply : Resp3Frame} (hk : kind command = .discard) :
      Handles connection command reply .plain []

def Renewed (before after : Connection) : Prop := after = before ∨ after = .plain

/-- Redis behind a client that reconnects. A command that fails may or may not have been
handled, and takes the connection with it or not. Before a command of which the
predicate holds, the client may also have replaced the connection without a word. -/
def redis (replaced : RedisCommand → Bool) : Server Connection where
  serves connection command answer after executed :=
    ∃ start, (start = connection ∨ replaced command = true ∧ start = .plain) ∧
      match answer with
      | .ok reply => Handles start command reply after executed
      | .error _ => Renewed start after ∧ executed = [] ∨
          ∃ reply middle, Handles start command reply middle executed ∧ Renewed middle after
  resets := Renewed

section Redis
variable {before after : Connection} {command : RedisCommand} {reply : Resp3Frame} {executed : List RedisCommand}

private theorem Handles.multi (h : Handles before command reply after executed) (hk : kind command = .multi) :
    executed = [] ∧ (replies "OK" reply → ∃ commands, after = .opened commands) := by
  have ha : atOnce command = true := atOnce_of_kind (by simp [hk])
  cases h <;> simp_all

private theorem Handles.discard (h : Handles before command reply after executed) (hk : kind command = .discard) :
    executed = [] := by
  have ha : atOnce command = true := atOnce_of_kind (by simp [hk])
  cases h <;> simp_all

private theorem Handles.ordinary {commands : List RedisCommand} (h : Handles (.opened commands) command reply after executed)
    (ha : atOnce command = false) :
    executed = [] ∧ (replies "QUEUED" reply → ∃ commands, after = .opened commands) := by
  have hk := kind_of_atOnce ha
  cases h <;> simp_all

/-- What holds of each way the command may have been handled holds of the answer. -/
theorem redis_executed {replaced : RedisCommand → Bool} {answer : Answer}
    (h : (redis replaced).serves before command answer after executed)
    (hp : ∀ start reply middle, start = before ∨ replaced command = true →
      Handles start command reply middle executed → executed = []) : executed = [] := by
  obtain ⟨start, hstart, h⟩ := h
  have hs : start = before ∨ replaced command = true := hstart.imp_right And.left
  cases answer with
  | ok reply => exact hp start reply after hs h
  | error error =>
    obtain ⟨-, h⟩ | ⟨reply, middle, h, -⟩ := h
    · exact h
    · exact hp start reply middle hs h

private theorem redis_discard {replaced : RedisCommand → Bool} {answer : Answer}
    (h : (redis replaced).serves before (control "DISCARD") answer after executed) : executed = [] :=
  redis_executed h fun _ _ _ _ h => h.discard rfl

/-- MULTI executes nothing, and has opened a transaction when it is answered OK. -/
theorem redis_multi {replaced : RedisCommand → Bool} {answer : Answer}
    (h : (redis replaced).serves before (control "MULTI") answer after executed) :
    executed = [] ∧ (received answer = .ok (.simple "OK") → ∃ commands, after = .opened commands) := by
  refine ⟨redis_executed h fun _ _ _ _ h => (h.multi rfl).1, fun hr => ?_⟩
  obtain ⟨start, -, h⟩ := h
  cases answer with
  | ok reply => exact (h.multi rfl).2 hr
  | error error => cases hr

/-- In an open transaction a command is not executed, and a transaction in which it is
queued stays open, if the connection is still the one that MULTI opened it on. -/
theorem redis_ordinary {replaced : RedisCommand → Bool} {answer : Answer} {commands : List RedisCommand}
    (h : (redis replaced).serves (.opened commands) command answer after executed) (ha : atOnce command = false)
    (hr : replaced command = false) :
    executed = [] ∧ (received answer = .ok (.simple "QUEUED") → ∃ commands, after = .opened commands) := by
  refine ⟨redis_executed h fun start _ _ hs h => ?_, fun hq => ?_⟩
  · obtain rfl : start = .opened commands := by simpa [hr] using hs
    exact (h.ordinary ha).1
  · obtain ⟨start, hs, h⟩ := h
    obtain rfl : start = .opened commands := by simpa [hr] using hs
    cases answer with
    | ok reply => exact (h.ordinary ha).2 hq
    | error error => cases hq

end Redis

section Atomic
variable {debug : RespValue → String} {replaced : RedisCommand → Bool} {commands : List RedisCommand}
  {connection : Connection} {trace : Trace} {executed : List RedisCommand} {result : BatchResult}

private theorem discard_executes_nothing {error : ExecError}
    (h : Exchange (redis replaced) connection (call (control "DISCARD") fun _ => .done (.error error)) trace executed
      result) : executed = [] := by
  obtain ⟨_, _, _, _, _, _, -, rfl, hs, -, h⟩ := h.of_call
  obtain ⟨-, rfl, -⟩ := h.of_done
  rw [redis_discard hs, List.append_nil]

private theorem queue_executes_nothing {queued : List RedisCommand} (hc : ∀ command ∈ commands, atOnce command = false)
    (hr : ∀ command ∈ commands, replaced command = false)
    (h : Exchange (redis replaced) (.opened queued) (queue debug commands) trace executed result)
    (hexec : ∀ message ∈ trace, kind message.1 ≠ .exec) : executed = [] := by
  induction commands generalizing queued trace executed with
  | nil =>
    rw [queue] at h
    obtain ⟨exec, _, _, _, rest, _, rfl, -⟩ := h.of_call
    have hk : kind (control "EXEC") = .exec := rfl
    exact absurd hk (hexec (control "EXEC", exec) List.mem_cons_self)
  | cons command commands ih =>
    rw [queue] at h
    obtain ⟨answer, t, u, now, rest, later, rfl, rfl, hs, hu, hnext⟩ := h.of_call
    obtain ⟨rfl, hopen⟩ := redis_ordinary hs (hc command List.mem_cons_self) (hr command List.mem_cons_self)
    rw [List.nil_append]
    split at hnext
    -- QUEUED came as a reply, so the executor has not reset the connection
    · rename_i hq
      obtain ⟨queued, rfl⟩ := hopen hq
      rw [hu _ hq] at hnext
      exact ih (fun c hm => hc c (List.mem_cons_of_mem _ hm)) (fun c hm => hr c (List.mem_cons_of_mem _ hm)) hnext
        fun message hm => hexec message (List.mem_cons_of_mem _ hm)
    · exact discard_executes_nothing hnext
    · exact discard_executes_nothing hnext

private theorem transaction_executes_nothing (hc : ∀ command ∈ commands, atOnce command = false)
    (hr : ∀ command ∈ commands, replaced command = false)
    (h : Exchange (redis replaced) connection (transaction debug commands) trace executed result)
    (hexec : ∀ message ∈ trace, kind message.1 ≠ .exec) : executed = [] := by
  rw [transaction] at h
  split at h
  · exact h.of_done.2.1
  · obtain ⟨answer, t, u, now, rest, later, rfl, rfl, hs, hu, hnext⟩ := h.of_call
    obtain ⟨rfl, hopen⟩ := redis_multi hs
    rw [List.nil_append]
    split at hnext
    · exact hnext.of_done.2.1
    · rename_i hok
      obtain ⟨queued, rfl⟩ := hopen hok
      rw [hu _ hok] at hnext
      exact queue_executes_nothing hc hr hnext fun message hm => hexec message (List.mem_cons_of_mem _ hm)
    · exact hnext.of_done.2.1

private theorem replies_ok : replies "OK" okReply := rfl

private theorem replies_queued : replies "QUEUED" queuedReply := rfl

private theorem redis_opens (replaced : RedisCommand → Bool) :
    (redis replaced).serves .plain (control "MULTI") (.ok okReply) (.opened []) [] :=
  ⟨.plain, .inl rfl, .begun rfl replies_ok⟩

private theorem Exchange.call {next : Except ExecError Resp3Frame → Proc BatchResult} {command : RedisCommand}
    {reply : Resp3Frame} {after : Connection} {now later : List RedisCommand}
    (hs : (redis replaced).serves connection command (.ok reply) after now)
    (h : Exchange (redis replaced) after (next (.ok reply)) trace later result) :
    Exchange (redis replaced) connection (call command next) ((command, .ok reply) :: trace) (now ++ later) result :=
  .raw hs h

/-- A command sent on a new connection is executed there and not queued. -/
theorem queue_executes (debug : RespValue → String) (queued : List RedisCommand)
    (hc : ∀ command ∈ commands, atOnce command = false)
    (hr : ∃ command ∈ commands, replaced command = true) :
    ∃ trace executed error,
      Exchange (redis replaced) (.opened queued) (queue debug commands) trace executed (.error error) ∧
      (∀ message ∈ trace, kind message.1 ≠ .exec) ∧ executed ≠ [] := by
  induction commands generalizing queued with
  | nil => simp at hr
  | cons command commands ih =>
    have ha := hc command List.mem_cons_self
    have hk := kind_of_atOnce ha
    by_cases hreplaced : replaced command = true
    -- on the new connection there is no transaction, so Redis runs the command
    · have hrun : (redis replaced).serves (.opened queued) command (.ok okReply) .plain [command] :=
        ⟨.plain, .inr ⟨hreplaced, rfl⟩, .run hk⟩
      have hdiscard : (redis replaced).serves .plain (control "DISCARD") (.ok okReply) .plain [] :=
        ⟨.plain, .inl rfl, .discarded rfl⟩
      refine ⟨_, _, _, .call hrun (.call hdiscard (.done _)), ?_, by simp⟩
      simp only [List.mem_cons, List.not_mem_nil, or_false]
      rintro message (rfl | rfl)
      · simp [hk]
      · decide
    · have hqueued : (redis replaced).serves (.opened queued) command (.ok queuedReply)
          (.opened (queued ++ [command])) [] := ⟨_, .inl rfl, .queued ha replies_queued⟩
      obtain ⟨found, hm, hfound⟩ := hr
      have hm : found ∈ commands := by
        obtain rfl | hm := List.mem_cons.mp hm
        · exact absurd hfound hreplaced
        · exact hm
      obtain ⟨trace, executed, error, h, hexec, hne⟩ :=
        ih (queued ++ [command]) (fun c hc' => hc c (List.mem_cons_of_mem _ hc')) ⟨found, hm, hfound⟩
      refine ⟨_, _, error, .call hqueued h, ?_, hne⟩
      rintro message (_ | ⟨_, hm⟩)
      · simp [hk]
      · exact hexec message hm

private theorem transaction_executes (debug : RespValue → String) (hc : ∀ command ∈ commands, atOnce command = false)
    (hr : ∃ command ∈ commands, replaced command = true) :
    ∃ trace executed error,
      Exchange (redis replaced) .plain (transaction debug commands) trace executed (.error error) ∧
      (∀ message ∈ trace, kind message.1 ≠ .exec) ∧ executed ≠ [] := by
  obtain ⟨trace, executed, error, h, hexec, hne⟩ := queue_executes debug [] hc hr
  have hn : commands ≠ [] := by
    rintro rfl
    simp at hr
  refine ⟨(control "MULTI", .ok okReply) :: trace, executed, error, ?_, ?_, hne⟩
  · rw [transaction, if_neg hn]
    exact .call (redis_opens replaced) h
  · rintro message (_ | ⟨_, hm⟩)
    · decide
    · exact hexec message hm

/-- For any answers, the messages of a transaction are one of three courses, an error is
that of the step that failed, and the transaction succeeds exactly when EXEC is answered
with an array, whose elements are converted one by one. With Redis at the other end, no
transaction that sent no EXEC has executed anything, exactly as long as the client does
not go over to a new connection before one of the commands. -/
theorem transaction_protocol {debug : RespValue → String} {commands : List RedisCommand} (hn : commands ≠ []) :
    (∀ (answers : Nat → Answer) (resets : Nat → Bool),
      let run := converse answers resets 0 (transaction debug commands)
      Course debug commands run.1 run.2 ∧
        ∀ slots, run.2 = .ok slots ↔ ∃ data, run.1.getLast? = some (control "EXEC", .ok (.array data)) ∧
          slots = data.map (frameWithinDepth Convert.maxDepth)) ∧
    ∀ replaced : RedisCommand → Bool, (∀ command ∈ commands, atOnce command = false) →
      ((∀ connection trace executed error,
        Exchange (redis replaced) connection (transaction debug commands) trace executed (.error error) →
          (∀ message ∈ trace, kind message.1 ≠ .exec) → executed = []) ↔
        ∀ command ∈ commands, replaced command = false) := by
  refine ⟨fun answers resets => ?_, fun replaced hc => ⟨fun h command hm => ?_, fun hr => ?_⟩⟩
  · have hcourse := transaction_course hn (converse_exchange answers resets 0 (transaction debug commands))
    exact ⟨hcourse, hcourse.ok_iff⟩
  · by_contra hreplaced
    obtain ⟨trace, executed, error, hx, hexec, hne⟩ :=
      transaction_executes debug hc ⟨command, hm, Bool.eq_true_of_not_eq_false hreplaced⟩
    exact hne (h _ trace executed error hx hexec)
  · intro connection trace executed error h hexec
    exact transaction_executes_nothing hc hr h hexec

def sampleSet : RedisCommand := ⟨"SET", [[107], [118]]⟩

def sampleTrace (multi set discard : Answer) : Trace :=
  [(control "MULTI", multi), (sampleSet, set), (control "DISCARD", discard)]

private theorem sampleTrace_no_exec (multi set discard : Answer) :
    ∀ message ∈ sampleTrace multi set discard, kind message.1 ≠ .exec := by
  simp only [sampleTrace, List.mem_cons, List.not_mem_nil, or_false]
  rintro message (rfl | rfl | rfl)
  · exact (by decide : kind (control "MULTI") ≠ .exec)
  · exact (by decide : kind sampleSet ≠ .exec)
  · exact (by decide : kind (control "DISCARD") ≠ .exec)

theorem transaction_protocol_refused :
    let trace := sampleTrace (.ok okReply) (.ok (.simpleError "OOM")) (.ok okReply)
    ∃ executed, Exchange (redis fun _ => false) .plain (transaction (fun _ => "") [sampleSet]) trace executed
      (.error (.redis "OOM")) ∧ executed = [] := by
  have hrefused : (redis fun _ => false).serves (.opened []) sampleSet (.ok (.simpleError "OOM")) (.opened []) [] :=
    ⟨_, .inl rfl, .refused (by decide) (by simp [replies, fredFrameToResp, frameWithinDepth, Convert.maxDepth])⟩
  have hdiscard : (redis fun _ => false).serves (.opened []) (control "DISCARD") (.ok okReply) .plain [] :=
    ⟨_, .inl rfl, .discarded rfl⟩
  have hexchange : Exchange (redis fun _ => false) .plain (transaction (fun _ => "") [sampleSet]) _ _
      (.error (.redis "OOM")) := .call (redis_opens _) (.call hrefused (.call hdiscard (.done _)))
  have hnothing := ((transaction_protocol (by simp)).2 _ (by decide)).mpr (by simp) _ _ _ _ hexchange
    (sampleTrace_no_exec _ _ _)
  exact ⟨_, hexchange, hnothing⟩

/-- The client reconnects after MULTI. The command is executed on the new connection, and
the transaction fails because it is not answered QUEUED. -/
theorem reconnection_executes :
    let trace := sampleTrace (.ok okReply) (.ok okReply) (.ok (.simpleError "ERR DISCARD without MULTI"))
    ∃ error, Exchange (redis fun _ => true) .plain (transaction (fun _ => "") [sampleSet]) trace [sampleSet]
      (.error error) ∧ ∀ message ∈ trace, kind message.1 ≠ .exec := by
  have hrun : (redis fun _ => true).serves (.opened []) sampleSet (.ok okReply) .plain [sampleSet] :=
    ⟨.plain, .inr ⟨rfl, rfl⟩, .run (by decide)⟩
  have hdiscard : (redis fun _ => true).serves .plain (control "DISCARD")
      (.ok (.simpleError "ERR DISCARD without MULTI")) .plain [] := ⟨_, .inl rfl, .discarded rfl⟩
  exact ⟨_, .call (redis_opens _) (.call hrun (.call hdiscard (.done _))), sampleTrace_no_exec _ _ _⟩

end Atomic
end Srh.Adapters.FredTransaction
