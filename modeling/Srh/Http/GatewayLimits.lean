import Srh.Http.BodySize
import Srh.Http.Gateway
import Srh.Lib.Tally

/-! What the tasks of the service share: the permits of the concurrency limit and the
in-flight gauge, in every interleaving of requests, timeouts and lost clients. -/
namespace Srh.Http.Gateway
open Srh.Lib Srh.Domain Srh.Ports Extractors

theorem waiting_of_waiting? {phase : Phase} {w : Waiting} (h : phase.waiting? = some w) : phase = .waiting w := by
  cases phase with
  | waiting v => cases h; rfl
  | _ => cases h

/-- What a step makes of the tasks: a new one, a turn of one of them, or nothing. -/
theorem step_cases {state : AppState} {s t : State} {e : Event} (h : (machine state).step s e = some t) :
    (∃ inbound, e = .arrive inbound ∧ t = s.arrive state inbound) ∨
    (∃ i signal task w turn, e = .signal i signal ∧ s.tasks[i]? = some task ∧ task.phase = .waiting w ∧
      Turns state s.limiter task signal w turn ∧ t = s.withTurn i task signal turn) ∨
    ∃ now, e = .sweep now ∧ t = s.sweep state now := by
  cases e with
  | arrive inbound =>
    cases h
    exact .inl ⟨inbound, rfl, rfl⟩
  | signal i signal =>
    obtain ⟨task, ht, h⟩ := Option.bind_eq_some_iff.mp h
    obtain ⟨w, hw, h⟩ := Option.bind_eq_some_iff.mp h
    obtain ⟨turn, hturn, h⟩ := Option.bind_eq_some_iff.mp h
    cases h
    exact .inr (.inl ⟨i, signal, task, w, turn, rfl, ht, waiting_of_waiting? hw, turns_of_turn hturn, rfl⟩)
  | sweep now =>
    cases h
    exact .inr (.inr ⟨now, rfl, rfl⟩)

def Task.waits (task : Task) : Bool := task.phase.waiting?.isSome

def Task.inApi (task : Task) : Bool :=
  match route task.inbound.path with
  | .api _ => task.waits
  | _ => false

theorem Task.waits_of_inApi {task : Task} (h : task.inApi = true) : task.waits = true := by
  rw [Task.inApi] at h
  split at h
  · exact h
  · cases h

section Guards
variable {state : AppState} {maxInFlight : Nat} {s : State}

private theorem foldl_take (occupancy : Occupancy) (held : List Guard) :
    held.foldl Occupancy.take occupancy = ⟨occupancy.available - held.count .permit, occupancy.inFlight + held.count .inFlight⟩ := by
  induction held generalizing occupancy with
  | nil => simp
  | cons guard held ih =>
    rw [List.foldl_cons, ih]
    cases guard with
    | permit => simp [Occupancy.take, Nat.sub_sub, Nat.add_comm]
    | inFlight => simp [Occupancy.take]; omega

private theorem foldl_drop (occupancy : Occupancy) (held : List Guard) :
    held.foldl Occupancy.drop occupancy = ⟨occupancy.available + held.count .permit, occupancy.inFlight - held.count .inFlight⟩ := by
  induction held generalizing occupancy with
  | nil => simp
  | cons guard held ih =>
    rw [List.foldl_cons, ih]
    cases guard with
    | permit => simp [Occupancy.drop]; omega
    | inFlight => simp [Occupancy.drop]; omega

/-- What is held is either kept or dropped. -/
private theorem keeps_add_drops (phase : Phase) (held : List Guard) (guard : Guard) :
    (phase.keeps held).count guard + (phase.drops held).count guard = held.count guard := by
  rw [Phase.keeps, Phase.drops]
  split <;> simp

/-- What a task should hold: nothing once it is over, and a permit in the API only. -/
def Task.due (task : Task) : List Guard :=
  if task.waits then
    match route task.inbound.path with
    | .api _ => [.permit, .inFlight]
    | _ => [.inFlight]
  else []

private theorem due_of_over {task : Task} (h : task.waits = false) : task.due = [] := by
  rw [Task.due, h]
  rfl

private theorem count_permit_due (task : Task) : task.due.count .permit = if task.inApi = true then 1 else 0 := by
  rw [Task.due, Task.inApi]
  cases task.waits <;> cases route task.inbound.path <;> rfl

private theorem count_inFlight_due (task : Task) : task.due.count .inFlight = if task.waits = true then 1 else 0 := by
  rw [Task.due]
  cases task.waits <;> cases route task.inbound.path <;> rfl

/-- Every guard that is out is held by a task, and every task holds what it should. -/
structure Balanced (maxInFlight : Nat) (s : State) : Prop where
  permits : s.available + tally (fun task => task.held.count .permit) s.tasks = maxInFlight
  gauge : s.inFlight = (tally (fun task => task.held.count .inFlight) s.tasks : Nat)
  held : ∀ task ∈ s.tasks, task.held = task.due

private theorem balanced_new (maxInFlight : Nat) : Balanced maxInFlight (.new maxInFlight) :=
  ⟨rfl, rfl, fun _ hm => absurd hm List.not_mem_nil⟩

private theorem taken_permit_le (available : Nat) (inbound : Inbound) : (taken available inbound).count .permit ≤ available := by
  rw [taken]
  split
  · split
    · exact Nat.zero_le _
    · exact Nat.pos_of_ne_zero (by assumption)
  · exact Nat.zero_le _

/-- A request that waits from the start holds what it was given. -/
private theorem Enters.due {available : Nat} {inbound : Inbound} {phase : Phase} {counted : List Counter}
    (h : Enters state available inbound phase counted) (held : List Guard) :
    phase.keeps (taken available inbound) = (⟨inbound, phase, .default, [], [], held⟩ : Task).due := by
  cases h with
  | checking hroute _ => simp [Phase.keeps, Phase.waiting?, taken, Task.due, Task.waits, hroute]
  | authenticating ha hroute _ => simp [Phase.keeps, Phase.waiting?, taken, Task.due, Task.waits, hroute, ha]
  | _ => rw [due_of_over rfl]; rfl

private theorem Balanced.arrive (h : Balanced maxInFlight s) (inbound : Inbound) : Balanced maxInFlight (s.arrive state inbound) := by
  have hle := taken_permit_le s.available inbound
  have hsplit := keeps_add_drops (enter state s.available inbound).1 (taken s.available inbound)
  have hpermit := hsplit .permit
  have hgauge := hsplit .inFlight
  constructor
  case permits =>
    have hpermits := h.permits
    simp only [State.arrive, tally_concat, foldl_take, foldl_drop]
    omega
  case gauge =>
    have hbefore := h.gauge
    simp only [State.arrive, tally_concat, foldl_take, foldl_drop]
    omega
  case held =>
    intro task hm
    rcases List.mem_append.mp hm with hm | hm
    · exact h.held task hm
    · rw [List.mem_singleton.mp hm]
      exact (enters_enter state s.available inbound).due _

/-- A turn that leaves a task waiting leaves it all that it holds, and one that ends it
leaves it nothing. -/
private theorem turned_due {task : Task} {signal : Signal} {w : Waiting} {t : Turn} (h : task.held = task.due)
    (hw : task.phase = .waiting w) : (task.turned signal t).held = (task.turned signal t).due := by
  have hwaits : (task.turned signal t).waits = t.phase.waiting?.isSome := rfl
  have hkeeps : (task.turned signal t).held = if t.phase.waiting?.isSome then task.held else [] := rfl
  rw [hkeeps]
  cases hp : t.phase.waiting?.isSome with
  | false => exact (due_of_over (hwaits.trans hp)).symm
  | true =>
    have hbefore : task.waits = true := by
      rw [Task.waits, hw]
      rfl
    rw [if_pos rfl, h, Task.due, Task.due, hwaits, hp, hbefore]
    rfl

private theorem Balanced.withTurn (h : Balanced maxInFlight s) {i : Nat} {task : Task} {signal : Signal} {w : Waiting} {t : Turn}
    (hi : s.tasks[i]? = some task) (hw : task.phase = .waiting w) : Balanced maxInFlight (s.withTurn i task signal t) := by
  have hsplit := keeps_add_drops t.phase task.held
  constructor
  case permits =>
    obtain ⟨rest, hold, hset⟩ := tally_frame (fun t : Task => t.held.count .permit) hi
    have hpermits := h.permits
    have hpermit := hsplit .permit
    simp only [State.withTurn, foldl_drop, hold, hset, Task.turned] at hpermits ⊢
    omega
  case gauge =>
    obtain ⟨rest, hold, hset⟩ := tally_frame (fun t : Task => t.held.count .inFlight) hi
    have hbefore := h.gauge
    have hgauge := hsplit .inFlight
    simp only [State.withTurn, foldl_drop, hold, hset, Task.turned] at hbefore ⊢
    omega
  case held =>
    intro other hm
    rcases List.mem_or_eq_of_mem_set hm with hm | rfl
    · exact h.held other hm
    · exact turned_due (h.held task (List.mem_of_getElem? hi)) hw

private theorem balanced_step {t : State} {e : Event} (h : Balanced maxInFlight s)
    (hs : (machine state).step s e = some t) : Balanced maxInFlight t := by
  rcases step_cases hs with ⟨inbound, -, rfl⟩ | ⟨i, signal, task, w, turn, -, hi, hw, -, rfl⟩ | ⟨now, -, rfl⟩
  · exact h.arrive inbound
  · exact h.withTurn hi hw
  · exact ⟨h.permits, h.gauge, h.held⟩

theorem balanced_run {events : List Event} (h : (machine state).run (start state) events = some s) :
    Balanced state.cfg.server.load.maxInFlight s :=
  Machine.run_invariant (fun _ _ _ => balanced_step) h (balanced_new _)

theorem Balanced.permits_eq (h : Balanced maxInFlight s) : s.available + s.tasks.countP Task.inApi = maxInFlight := by
  have hcount : tally (fun task => task.held.count .permit) s.tasks = s.tasks.countP fun task => task.inApi = true := by
    rw [← tally_ite]
    apply tally_congr
    intro task hm
    rw [h.held task hm, count_permit_due]
  rw [← h.permits, hcount]
  simp

theorem Balanced.gauge_eq (h : Balanced maxInFlight s) : s.inFlight = (s.tasks.countP Task.waits : Nat) := by
  have hcount : tally (fun task => task.held.count .inFlight) s.tasks = s.tasks.countP fun task => task.waits = true := by
    rw [← tally_ite]
    apply tally_congr
    intro task hm
    rw [h.held task hm, count_inFlight_due]
  rw [h.gauge, hcount]
  simp

end Guards

/-- A request for the API is shed when no permit is left, and only then. -/
theorem enter_shed_iff (state : AppState) (available : Nat) {inbound : Inbound} {endpoint : Endpoint}
    (hroute : route inbound.path = .api endpoint) :
    (enter state available inbound).2 = [.shedGlobalLimit] ↔ available = 0 := by
  rw [enter, hroute]
  dsimp only
  by_cases ha : available = 0
  · simp [ha]
  · rw [if_neg ha, enterApi]
    refine ⟨?_, fun h => absurd h ha⟩
    split
    · rintro ⟨⟩
    · split
      · rintro ⟨⟩
      · split <;> rintro ⟨⟩

/-- In every interleaving at most the configured number of requests wait inside the API,
the gauge shows the requests that wait at all, the next one is shed if and only if the API
is full, and a request that was answered, ran out of time or lost its client holds nothing
any more. -/
theorem in_flight_bounded (state : AppState) (events : List Event) (s : State)
    (hrun : (machine state).run (start state) events = some s) :
    s.tasks.countP Task.inApi ≤ state.cfg.server.load.maxInFlight ∧ s.inFlight = (s.tasks.countP Task.waits : Nat) ∧
    (∀ task ∈ s.tasks, task.waits = false → task.held = []) ∧
    ∀ inbound endpoint, route inbound.path = .api endpoint →
      ((enter state s.available inbound).2 = [.shedGlobalLimit] ↔
        s.tasks.countP Task.inApi = state.cfg.server.load.maxInFlight) := by
  have h := balanced_run hrun
  have hpermits := h.permits_eq
  refine ⟨by omega, h.gauge_eq, ?_, ?_⟩
  · intro task hm hw
    rw [h.held task hm, due_of_over hw]
  · intro inbound endpoint hroute
    rw [enter_shed_iff state s.available hroute]
    omega

section Sample

def sampleServer : AppState := { getState with rateLimiter := .new 100 (by decide) }

def sampleInbound : Inbound where
  path := "/"
  method := .post
  contentLength := some 2
  authorization := some (Ascii.bytes "Bearer secret")
  encodingHeader := none
  loopback := false

def sampleExecutor : Executor where
  execute _ := .ok (.simple "OK")
  pipeline _ := []
  transaction _ := .ok []

def sampleEvents : List Event :=
  [.arrive sampleInbound, .arrive sampleInbound,
    .signal 0 (.authenticated 1 (.ok (some sampleRequest.identity))), .signal 1 (.authenticated 2 (.ok (some sampleRequest.identity))),
    .signal 1 (.read 3 (.complete [])), .signal 0 (.read 4 (.complete [])), .signal 0 (.acquired (.ok ())),
    .signal 1 (.acquired (.ok ())), .signal 1 .abandon, .signal 0 (.called sampleExecutor)]

theorem sample_runs : ((machine sampleServer).run (start sampleServer) sampleEvents).isSome := by decide +kernel

def sampleOperation : Operation := .execute ⟨"GET", [Ascii.bytes "a"]⟩

def Served (task : Task) : Prop :=
  (∃ now upload, Signal.read now upload ∈ task.heard) ∧ .call sampleOperation ∈ task.deeds

theorem mem_of_any_call {deeds : List Deed} {operation : Operation}
    (h : (deeds.any fun deed => deed.effect? = some (.call operation)) = true) : .call operation ∈ deeds := by
  obtain ⟨deed, hdeed, hcall⟩ := List.any_eq_true.mp h
  cases deed with
  | call sent =>
    cases of_decide_eq_true hcall
    exact hdeed
  | _ => cases of_decide_eq_true hcall

theorem sample_served : ∃ s task, (machine sampleServer).run (start sampleServer) sampleEvents = some s ∧
    s.tasks[0]? = some task ∧ Served task := by
  have h : (((machine sampleServer).run (start sampleServer) sampleEvents).bind fun s => s.tasks[0]?).map
      (fun task => ((task.heard.any fun | .read _ _ => true | _ => false) &&
        task.deeds.any fun deed => deed.effect? = some (.call sampleOperation))) = some true := by
    decide +kernel
  obtain ⟨task, htask, hserved⟩ := Option.map_eq_some_iff.mp h
  obtain ⟨s, hrun, htask⟩ := Option.bind_eq_some_iff.mp htask
  rw [Bool.and_eq_true, List.any_eq_true] at hserved
  obtain ⟨⟨signal, hsignal, hread⟩, hcall⟩ := hserved
  refine ⟨s, task, hrun, htask, ?_, mem_of_any_call hcall⟩
  split at hread
  · exact ⟨_, _, hsignal⟩
  · cases hread

theorem in_flight_bounded_sample :
    ∃ s, (machine sampleServer).run (start sampleServer) sampleEvents = some s ∧
      s.inFlight = (s.tasks.countP Task.waits : Nat) := by
  obtain ⟨s, hs⟩ := Option.isSome_iff_exists.mp sample_runs
  exact ⟨s, hs, (in_flight_bounded sampleServer sampleEvents s hs).2.1⟩

end Sample
end Srh.Http.Gateway
