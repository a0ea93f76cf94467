import Srh.Adapters.PoolTasks
import Srh.Http.Failures
import Srh.ServerLinks

/-! What ties the requests of the server to the tasks of the pool manager: a request that
waits for its pool or for Redis has a task there, on an entry of the pool of its
identity, and the task is no further than the request has been told. -/
namespace Srh.Server
open Srh.Lib Srh.Domain Srh.Ports Srh.Http Srh.Http.Gateway Srh.Adapters
open PoolManager (Stage PoolEntry Action)

section Stages

def Seeking : Stage → Prop
  | .leased _ _ => False
  | .recorded _ _ => False
  | .dropping held error => held ≠ [] ∧ ∃ e, error = some e ∧ Shedding e
  | _ => True

def Returned (results : Option Executor) (operation : Operation) : Prop :=
  ∃ executor, results = some executor ∧ joined executor operation

/-- The stages of a task whose request waits for Redis. The client is the last of what is
dropped. -/
def Serving (results : Option Executor) (operation : Operation) : Stage → Prop
  | .leased _ _ => True
  | .recorded _ _ => Returned results operation
  | .dropping held error => error = none ∧ (∃ client, held.getLast? = some (.client client)) ∧ Returned results operation
  | _ => False

variable {n : Nat} {entry : PoolEntry} {action : Action} {stage : Stage} {effect : PoolManager.Effect}

private theorem Seeking.act (h : Seeking stage) (ha : ownAction action) (hact : PoolManager.act n entry action stage = some effect) :
    Seeking effect.stage ∨ (∃ p client, effect.stage = .leased p client) ∨
      ∃ e, effect.stage = .dropping [] (some e) ∧ Shedding e := by
  revert hact
  fun_cases PoolManager.act n entry action stage
  case case1 secs inner hadmit => rintro ⟨⟩; exact .inr (.inr ⟨_, rfl, trivial⟩)
  case case4 p _ => rintro ⟨⟩; exact .inl ⟨by simp [Stage.held], _, rfl, trivial⟩
  case case7 p => rintro ⟨⟩; exact .inl ⟨by simp [Stage.held], _, rfl, trivial⟩
  case case10 p _ start client hscan => rintro ⟨⟩; exact .inr (.inl ⟨p, client, rfl⟩)
  case case12 p start hfree => rintro ⟨⟩; exact .inr (.inl ⟨p, start, rfl⟩)
  case case14 => exact h.elim
  case case15 => exact h.elim
  case case16 resource held error _ =>
    rintro ⟨⟩
    obtain ⟨-, e, rfl, he⟩ := h
    by_cases hnil : held = []
    · subst hnil
      exact .inr (.inr ⟨e, rfl, he⟩)
    · exact .inl ⟨hnil, e, rfl, he⟩
  case case17 => cases ha
  all_goals rintro ⟨⟩
  all_goals exact .inl trivial

private theorem Serving.act {results : Option Executor} {operation : Operation} (h : Serving results operation stage)
    (ha : ownAction action) (hact : PoolManager.act n entry action stage = some effect) :
    Serving results operation effect.stage ∨ effect.stage = .dropping [] none ∧ Returned results operation := by
  revert hact
  fun_cases PoolManager.act n entry action stage
  case case14 => cases ha
  case case15 p client => rintro ⟨⟩; exact .inl ⟨rfl, ⟨client, rfl⟩, h⟩
  case case16 resource held error _ =>
    rintro ⟨⟩
    obtain ⟨rfl, ⟨client, hlast⟩, hr⟩ := h
    by_cases hnil : held = []
    · subst hnil
      exact .inr ⟨rfl, hr⟩
    · refine .inl ⟨rfl, ⟨client, ?_⟩, hr⟩
      rwa [List.getLast?_cons_of_ne_nil hnil] at hlast
  case case17 => cases ha
  all_goals first | exact h.elim | rintro ⟨⟩

/-- Only a task that serves records an outcome. -/
theorem Serving.complete {results : Option Executor} {operation : Operation} {errors : List ExecError} {executor : Executor}
    (h : Serving results operation stage) (hjoined : joined executor operation)
    (hact : PoolManager.act n entry (.complete errors) stage = some effect) : Serving (some executor) operation effect.stage := by
  cases stage with
  | leased p client =>
    cases hact
    exact ⟨executor, rfl, hjoined⟩
  | _ => cases hact

theorem Serving.client {results : Option Executor} {operation : Operation} (h : Serving results operation stage) :
    ∃ client, stage.held.getLast? = some (.client client) := by
  cases stage with
  | leased p client => exact ⟨client, rfl⟩
  | recorded p client => exact ⟨client, rfl⟩
  | dropping held error => exact h.2.1
  | _ => exact h.elim

end Stages

/-- The task that a request has at the pool manager: its stage, on an entry of the pool of
the identity. -/
def At (s : State) (i : Nat) (identity : Identity) (stage : Stage) : Prop :=
  ∃ j task entry, s.leases i = some j ∧ s.pools.tasks[j]? = some task ∧ task.stage = stage ∧
    s.pools.entries[task.entry]? = some entry ∧ entry.name = identity.pool

def Placed (s : State) (i : Nat) : Waiting → Prop
  | .acquiring request _ => ∃ stage, At s i request.identity stage ∧ Seeking stage
  | .calling request work => ∃ stage, At s i request.identity stage ∧ Serving (s.results i) work.operation stage
  | _ => True

structure Lent (s : State) : Prop where
  bounded : ∀ i j, s.leases i = some j → j < s.pools.tasks.length
  injective : ∀ i i' j, s.leases i = some j → s.leases i' = some j → i = i'
  current : PoolManager.Current s.pools

structure Leasing (s : State) : Prop extends Lent s where
  placed : ∀ i w, s.waiting i = some w → Placed s i w

/-- What changes concerns one request only. -/
structure Apart (s t : State) (i : Nat) : Prop where
  waiting : ∀ j, j ≠ i → t.waiting j = s.waiting j
  leases : ∀ j, j ≠ i → t.leases j = s.leases j
  results : ∀ j, j ≠ i → t.results j = s.results j
  tasks : ∀ (k : Nat) task, s.leases i ≠ some k → s.pools.tasks[k]? = some task → t.pools.tasks[k]? = some task
  entries : ∀ (k : Nat) (entry : PoolEntry), s.pools.entries[k]? = some entry →
    ∃ later, t.pools.entries[k]? = some later ∧ later.name = entry.name

section Frames
variable {app : AppState} {s t u : State} {i : Nat}

theorem Apart.refl (s : State) (i : Nat) : Apart s s i :=
  ⟨fun _ _ => rfl, fun _ _ => rfl, fun _ _ => rfl, fun _ _ _ h => h, fun _ entry h => ⟨entry, h, rfl⟩⟩

theorem Apart.trans (h : Apart s t i) (h' : Apart t u i) (hi : t.leases i = s.leases i) : Apart s u i where
  waiting j hj := (h'.waiting j hj).trans (h.waiting j hj)
  leases j hj := (h'.leases j hj).trans (h.leases j hj)
  results j hj := (h'.results j hj).trans (h.results j hj)
  tasks k task hk ht := h'.tasks k task (by rwa [hi]) (h.tasks k task hk ht)
  entries k entry he := by
    obtain ⟨later, hl, hn⟩ := h.entries k entry he
    obtain ⟨last, hlast, hn'⟩ := h'.entries k later hl
    exact ⟨last, hlast, hn'.trans hn⟩

/-- The place of a request that the change does not concern. -/
theorem Leasing.placed_apart (h : Leasing s) (ha : Apart s t i) {j : Nat} (hj : j ≠ i) {w : Waiting}
    (hw : t.waiting j = some w) : Placed t j w := by
  rw [ha.waiting j hj] at hw
  have hat {identity : Identity} {stage : Stage} (hat : At s j identity stage) : At t j identity stage := by
    obtain ⟨k, task, entry, hk, ht, hs, he, hn⟩ := hat
    have hne : s.leases i ≠ some k := fun hi => hj (h.injective j i k hk hi)
    obtain ⟨later, hl, hname⟩ := ha.entries _ entry he
    exact ⟨k, task, later, (ha.leases j hj).trans hk, ha.tasks k task hne ht, hs, hl, hname.trans hn⟩
  have hp := h.placed j w hw
  cases w with
  | acquiring request work =>
    obtain ⟨stage, ha, hs⟩ := hp
    exact ⟨stage, hat ha, hs⟩
  | calling request work =>
    obtain ⟨stage, hplace, hs⟩ := hp
    refine ⟨stage, hat hplace, ?_⟩
    rwa [ha.results j hj]
  | _ => trivial

private theorem Leasing.apart (h : Leasing s) (ha : Apart s t i) (hi : ∀ w, t.waiting i = some w → Placed t i w)
    (hleases : t.leases = s.leases) (hlen : s.pools.tasks.length ≤ t.pools.tasks.length)
    (hcurrent : PoolManager.Current t.pools) : Leasing t where
  placed j w hw := by
    by_cases hj : j = i
    · subst hj
      exact hi w hw
    · exact h.placed_apart ha hj hw
  bounded j k hk := (h.bounded j k (hleases ▸ hk)).trans_le hlen
  injective := by
    rw [hleases]
    exact h.injective
  current := hcurrent

/-- A request that hears something is the only one that does. -/
theorem hear_apart {signal : Signal} (h : s.hear app i signal = some t) : Apart s t i := by
  obtain ⟨task, w, turn, hh, rfl⟩ := hear_cases h
  refine { Apart.refl s i with waiting := ?_ }
  intro j hj
  rw [State.waiting, State.waiting]
  exact congrArg (Option.bind · _) (withTurn_ne hj)

theorem hear_rest {signal : Signal} (h : s.hear app i signal = some t) :
    t.pools = s.pools ∧ t.leases = s.leases ∧ t.results = s.results := by
  obtain ⟨gateway, -, rfl⟩ := Option.map_eq_some_iff.mp h
  exact ⟨rfl, rfl, rfl⟩

/-- A step of the pool manager that is for no other task than that of the request. -/
theorem manage_apart {event : PoolManager.Event} (h : s.manage app event = some t)
    (he : ∀ k a, event = .act k a → s.leases i = some k) : Apart s t i := by
  obtain ⟨pools, hp, rfl⟩ := Option.map_eq_some_iff.mp h
  refine { Apart.refl s i with tasks := ?_, entries := fun k entry => PoolManager.names_kept hp }
  intro k task hk
  exact PoolManager.tasks_kept hp fun a hn => hk (he k a hn)

theorem manage_rest {event : PoolManager.Event} (h : s.manage app event = some t) :
    t.gateway = s.gateway ∧ t.leases = s.leases ∧ t.results = s.results := by
  obtain ⟨pools, -, rfl⟩ := Option.map_eq_some_iff.mp h
  exact ⟨rfl, rfl, rfl⟩

theorem waiting_of_gateway (h : t.gateway = s.gateway) (i : Nat) : t.waiting i = s.waiting i := by
  rw [State.waiting, State.waiting, h]

/-- What a request waits for after it has heard something. -/
theorem hear_next {signal : Signal} {w : Waiting} (h : s.hear app i signal = some t) (hw : t.waiting i = some w) :
    (∃ now answer request, signal = .authenticated now answer ∧ w = .reading request) ∨
      (∃ now upload request work, signal = .read now upload ∧ w = .acquiring request work) ∨
      ∃ request work, signal = .acquired (.ok ()) ∧ s.waiting i = some (.acquiring request work) ∧
        w = .calling (Gateway.hear request (.acquired (.ok ()))) work := by
  obtain ⟨task, before, turn, hh, rfl⟩ := hear_cases h
  obtain ⟨after, hi, hp⟩ := phase_of_waiting hw
  cases hh.get_self.symm.trans hi
  have hwaits := waiting_of_phase hh.found hh.waits
  have ht := hh.turns
  rw [Task.turned] at hp
  cases ht with
  | probed _ =>
    cases hp
    exact .inl ⟨_, _, _, rfl, rfl⟩
  | planned _ _ _ _ _ _ =>
    cases hp
    exact .inr (.inl ⟨_, _, _, _, rfl, rfl⟩)
  | leased =>
    cases hp
    exact .inr (.inr ⟨_, _, rfl, hwaits, rfl⟩)
  | _ => cases hp

def Final : Signal → Prop
  | .acquired (.error _) => True
  | .called _ => True
  | .elapse => True
  | .abandon => True
  | _ => False

theorem hear_ends {signal : Signal} (h : s.hear app i signal = some t) (hs : Final signal) (w : Waiting) : t.waiting i ≠ some w := by
  intro hw
  rcases hear_next h hw with ⟨_, _, _, rfl, -⟩ | ⟨_, _, _, _, rfl, -⟩ | ⟨_, _, rfl, -⟩
  all_goals exact hs

end Frames

section Delivery
variable {app : AppState} {s t : State} {i j : Nat}

inductive Delivers (app : AppState) (s : State) (i j : Nat) : State → Prop where
  | leased {request : Request} {work : Work} {p : Breaker.BreakerPermit} {client : Nat} {t : State}
      (hw : s.waiting i = some (.acquiring request work)) (hs : s.stage j = some (.leased p client))
      (h : s.hear app i (.acquired (.ok ())) = some t) : Delivers app s i j t
  | refused {request : Request} {work : Work} {error : AcquireError} {t : State}
      (hw : s.waiting i = some (.acquiring request work)) (hs : s.stage j = some (.dropping [] (some error)))
      (h : s.hear app i (.acquired (.error error)) = some t) : Delivers app s i j t
  | called {request : Request} {work : Work} {executor : Executor} {t : State}
      (hw : s.waiting i = some (.calling request work)) (hs : s.stage j = some (.dropping [] none))
      (hr : s.results i = some executor) (h : s.hear app i (.called executor) = some t) : Delivers app s i j t
  | silent (hleased : ∀ request work p client, s.waiting i = some (.acquiring request work) → s.stage j ≠ some (.leased p client))
      (hrefused : ∀ request work error, s.waiting i = some (.acquiring request work) →
        s.stage j ≠ some (.dropping [] (some error)))
      (hcalled : ∀ request work executor, s.waiting i = some (.calling request work) → s.results i = some executor →
        s.stage j ≠ some (.dropping [] none)) : Delivers app s i j s

theorem delivers_of_deliver (h : s.deliver app i j = some t) : Delivers app s i j t := by
  rw [State.deliver] at h
  split at h
  · exact .leased (by assumption) (by assumption) h
  · exact .refused (by assumption) (by assumption) h
  · exact .called (by assumption) (by assumption) (by assumption) h
  · rename_i hleased hrefused hcalled
    cases h
    exact .silent (fun request work p client hw hs => hleased request work p client hw hs)
      (fun request work error hw hs => hrefused request work error hw hs)
      fun request work executor hw hr hs => hcalled request work executor hw hs hr

/-- A request that has its place holds it while its task goes on. -/
theorem At.act {identity : Identity} {stage : Stage} {action : Action} (h : At s i identity stage) (hj : s.leases i = some j)
    (ht : s.manage app (.act j action) = some t) :
    ∃ n entry effect, PoolManager.act n entry action stage = some effect ∧ At t i identity effect.stage ∧
      t.stage j = some effect.stage := by
  obtain ⟨k, task, entry, hk, htask, rfl, he, hn⟩ := h
  cases hj.symm.trans hk
  obtain ⟨pools, hp, rfl⟩ := Option.map_eq_some_iff.mp ht
  obtain ⟨old, before, effect, hold, hbefore, hact, rfl⟩ := PoolManager.actTask_eq_some.mp hp
  cases htask.symm.trans hold
  cases he.symm.trans hbefore
  have hself : (s.pools.withEffect j task effect).tasks[j]? = some { task with stage := effect.stage } :=
    List.getElem?_set_self (List.getElem?_eq_some_iff.mp htask).1
  have hentry : (s.pools.withEffect j task effect).entries[task.entry]? = some effect.entry :=
    List.getElem?_set_self (List.getElem?_eq_some_iff.mp he).1
  have hname : effect.entry.name = identity.pool := (PoolManager.acts_of_act hact).fixed.1.trans hn
  refine ⟨_, _, effect, hact, ⟨j, _, effect.entry, hj, hself, rfl, hentry, hname⟩, ?_⟩
  exact congrArg (Option.map _) hself

private theorem At.hear {identity : Identity} {stage : Stage} {signal : Signal} (h : At s i identity stage)
    (ht : s.hear app i signal = some t) : At t i identity stage := by
  obtain ⟨gateway, -, rfl⟩ := Option.map_eq_some_iff.mp ht
  exact h

end Delivery

section Steps
variable {Key : Type} {app : AppState} {library : Jwt.Library Key} {s t : State} {i : Nat}

/-- Nothing that a lease depends on has changed. -/
theorem Leasing.of_eq (h : Leasing s) (hw : ∀ i, t.waiting i = s.waiting i) (hp : t.pools = s.pools) (hl : t.leases = s.leases)
    (hr : t.results = s.results) : Leasing t := by
  obtain ⟨gateway, authentication, pools, leases, results⟩ := t
  cases hp
  cases hl
  cases hr
  exact ⟨⟨h.bounded, h.injective, h.current⟩, fun i w hi => h.placed i w ((hw i).symm.trans hi)⟩

private theorem Leasing.authenticate (h : Leasing s) {event : Authentication.Event} (ht : s.authenticate app library event = some t) :
    Leasing t := by
  obtain ⟨authentication, -, rfl⟩ := Option.map_eq_some_iff.mp ht
  exact h.of_eq (fun _ => rfl) rfl rfl rfl

/-- A request that ends, or goes on to read its body, needs no place. -/
theorem Leasing.hear (h : Leasing s) {signal : Signal} (ht : s.hear app i signal = some t)
    (hs : ∀ w, t.waiting i = some w → Placed t i w) : Leasing t := by
  obtain ⟨hp, hl, -⟩ := hear_rest ht
  exact h.apart (hear_apart ht) hs hl (by rw [hp]) (hp.symm ▸ h.current)

private theorem Leasing.told (h : Leasing s) {signal : Signal} (ht : s.hear app i signal = some t)
    (hread : ∀ now upload, signal ≠ .read now upload) (hok : signal ≠ .acquired (.ok ())) : Leasing t := by
  apply h.hear ht
  intro w hw
  rcases hear_next ht hw with ⟨_, _, request, -, rfl⟩ | ⟨_, _, _, _, he, -⟩ | ⟨request, work, he, -⟩
  · trivial
  · exact absurd he (hread _ _)
  · exact absurd he hok

private theorem Leasing.manage (h : Leasing s) {event : PoolManager.Event} (he : upkeep event) (ht : s.manage app event = some t) :
    Leasing t := by
  obtain ⟨hg, hl, -⟩ := manage_rest ht
  -- no request is concerned; for each of them another one may be thought of as concerned
  have hapart (i : Nat) : Apart s t i := manage_apart ht (by rintro k a rfl; cases he)
  refine ⟨⟨?_, ?_, ?_⟩, fun i w hw => h.placed_apart (hapart (i + 1)) (by omega) hw⟩
  all_goals obtain ⟨pools, hp, rfl⟩ := Option.map_eq_some_iff.mp ht
  · exact fun i j hj => (h.bounded i j hj).trans_le (PoolManager.tasks_length_le hp)
  · exact h.injective
  · exact PoolManager.current_step h.current hp

/-- A request waits for the readiness of the pools or for the authenticator first. -/
theorem enters_waits {available : Nat} {inbound : Inbound} {phase : Phase} {counted : List Counter} {w : Waiting}
    (h : Enters app available inbound phase counted) (hp : phase = .waiting w) : w = .checking ∨ ∃ token, w = .authenticating token := by
  cases h with
  | checking =>
    cases hp
    exact .inl rfl
  | authenticating _ _ _ =>
    cases hp
    exact .inr ⟨_, rfl⟩
  | _ => cases hp

theorem arrived_apart (s : State) (inbound : Inbound) : Apart s (Server.arrived app s inbound) s.gateway.tasks.length := by
  refine { Apart.refl s _ with waiting := ?_ }
  intro j hj
  have hget : (s.gateway.arrive app inbound).tasks[j]? = s.gateway.tasks[j]? := by
    by_cases hlt : j < s.gateway.tasks.length
    · exact List.getElem?_append_left hlt
    · have hlen : (s.gateway.arrive app inbound).tasks.length ≤ j := by
        rw [Gateway.State.arrive, List.length_append, List.length_singleton]
        omega
      rw [List.getElem?_eq_none hlen, List.getElem?_eq_none (by omega)]
  rw [State.waiting, State.waiting]
  exact congrArg (Option.bind · _) hget

private theorem Leasing.arrived (h : Leasing s) (inbound : Inbound) : Leasing (Server.arrived app s inbound) := by
  apply h.apart (arrived_apart s inbound) _ rfl le_rfl h.current
  intro w hw
  obtain ⟨task, ht, hp⟩ := phase_of_waiting hw
  cases (arrived_waiting s inbound).symm.trans ht
  rcases enters_waits (enters_enter app s.gateway.available inbound) hp with rfl | ⟨token, rfl⟩
  · trivial
  · trivial

/-- A request gets a task that no other request has. -/
theorem Leasing.lease (h : Leasing s) (ha : Apart s t i) {j : Nat} (hleases : t.leases = Function.update s.leases i (some j))
    (hnew : s.pools.tasks.length ≤ j) (hlt : j < t.pools.tasks.length) (hi : ∀ w, t.waiting i = some w → Placed t i w)
    (hcurrent : PoolManager.Current t.pools) : Leasing t := by
  have hold {k j' : Nat} (hk : t.leases k = some j') : k = i ∧ j' = j ∨ s.leases k = some j' := by
    rw [hleases, Function.update_apply] at hk
    split at hk
    · rename_i hki
      exact .inl ⟨hki, (Option.some.inj hk).symm⟩
    · exact .inr hk
  refine { bounded := ?bounded, injective := ?injective, current := hcurrent, placed := ?placed }
  case placed =>
    intro k w hw
    by_cases hk : k = i
    · subst hk
      exact hi w hw
    · exact h.placed_apart ha hk hw
  case bounded =>
    intro k j' hk
    rcases hold hk with ⟨-, rfl⟩ | hk
    · exact hlt
    · have := h.bounded k j' hk
      omega
  case injective =>
    intro k k' j' hk hk'
    rcases hold hk with ⟨rfl, rfl⟩ | hk
    · rcases hold hk' with ⟨rfl, -⟩ | hk'
      · rfl
      · have := h.bounded k' j' hk'
        omega
    · rcases hold hk' with ⟨-, rfl⟩ | hk'
      · have := h.bounded k j' hk
        omega
      · exact h.injective k k' j' hk hk'

/-- A request that is refused a lease at once needs no place. -/
theorem Leasing.refused {u : State} {signal : Signal} {error : AcquireError} (h : Leasing s) (hu : s.hear app i signal = some u)
    (ht : u.hear app i (.acquired (.error error)) = some t) : Leasing t := by
  obtain ⟨hp, hl, -⟩ := hear_rest hu
  obtain ⟨hp', hl', -⟩ := hear_rest ht
  refine h.apart ((hear_apart hu).trans (hear_apart ht) (by rw [hl])) ?_ (hl'.trans hl) (by rw [hp', hp])
    ((hp'.trans hp).symm ▸ h.current)
  exact fun w hw => absurd hw (hear_ends ht trivial w)

/-- A request that has been told of its body and wants a lease gets a task of its own. -/
theorem Leasing.acquiring {u : State} {signal : Signal} {request : Request} {work : Work} {buildError : Option String}
    {built : PoolManager.World × Nat} (h : Leasing s) (hu : s.hear app i signal = some u)
    (hw : u.waiting i = some (.acquiring request work))
    (hb : PoolManager.getOrBuild app.cfg.pools u.pools request.identity.pool buildError = .ok built)
    (ht : u.manage app (.acquire request.identity.pool buildError) = some t) :
    Leasing { t with leases := Function.update t.leases i (some u.pools.tasks.length) } := by
  have hapart : Apart s t i := (hear_apart hu).trans (manage_apart ht (by rintro k a ⟨⟩)) (by rw [(hear_rest hu).2.1])
  have hcurrent : PoolManager.Current u.pools := (hear_rest hu).1.symm ▸ h.current
  obtain ⟨entry, hentry, hname, htasks⟩ := PoolManager.getOrBuild_task hcurrent hb
  obtain ⟨gateway, -, rfl⟩ := Option.map_eq_some_iff.mp hu
  obtain ⟨pools, hp, rfl⟩ := Option.map_eq_some_iff.mp ht
  have hlater : PoolManager.Current pools := PoolManager.current_step hcurrent hp
  cases hp
  have htask : (PoolManager.acquire app.cfg.pools s.pools request.identity.pool buildError).tasks[s.pools.tasks.length]? =
      some ⟨built.2, s.pools.unixSecs, .entered⟩ := by
    rw [htasks]
    exact List.getElem?_concat_length
  refine h.lease { hapart with leases := fun k hk => Function.update_of_ne hk _ _ } rfl le_rfl ?_ ?_ hlater
  · exact (List.getElem?_eq_some_iff.mp htask).1
  · intro w hk
    cases hw.symm.trans hk
    exact ⟨.entered, ⟨_, _, entry, Function.update_self .., htask, rfl, hentry, hname⟩, trivial⟩

section Task
variable {u : State} {j : Nat} {action : Action} {request : Request} {work : Work}

/-- Where the task of a request is after a step of its own, if the request waits for its
lease. -/
theorem Leasing.seeking (h : Leasing s) (ha : ownAction action) (hj : s.leases i = some j)
    (hu : s.manage app (.act j action) = some u) (hw : u.waiting i = some (.acquiring request work)) :
    ∃ stage, At u i request.identity stage ∧ u.stage j = some stage ∧
      (Seeking stage ∨ (∃ p client, stage = .leased p client) ∨ ∃ e, stage = .dropping [] (some e) ∧ Shedding e) := by
  rw [waiting_of_gateway (manage_rest hu).1] at hw
  obtain ⟨stage, hat, hs⟩ := h.placed i _ hw
  obtain ⟨n, entry, effect, hact, hat, hstage⟩ := hat.act hj hu
  exact ⟨_, hat, hstage, hs.act ha hact⟩

/-- The same, if the request waits for Redis. -/
theorem Leasing.serving (h : Leasing s) (ha : ownAction action) (hj : s.leases i = some j)
    (hu : s.manage app (.act j action) = some u) (hw : u.waiting i = some (.calling request work)) :
    ∃ stage, At u i request.identity stage ∧ u.stage j = some stage ∧ (Serving (u.results i) work.operation stage ∨
      stage = .dropping [] none ∧ Returned (u.results i) work.operation) := by
  rw [waiting_of_gateway (manage_rest hu).1] at hw
  obtain ⟨stage, hat, hs⟩ := h.placed i _ hw
  obtain ⟨n, entry, effect, hact, hat, hstage⟩ := hat.act hj hu
  rw [← (manage_rest hu).2.2] at hs
  exact ⟨_, hat, hstage, hs.act ha hact⟩

private theorem Leasing.pool (h : Leasing s) (ha : ownAction action) (hj : s.leases i = some j)
    (hu : s.manage app (.act j action) = some u) (ht : Delivers app u i j t) : Leasing t := by
  have hl := (manage_rest hu).2.1
  have hapart : Apart s u i := manage_apart hu (by rintro k a ⟨⟩; exact hj)
  obtain ⟨pools, hp, hpools⟩ := Option.map_eq_some_iff.mp hu
  have hlen : s.pools.tasks.length ≤ u.pools.tasks.length := hpools ▸ PoolManager.tasks_length_le hp
  have hcurrent : PoolManager.Current u.pools := hpools ▸ PoolManager.current_step h.current hp
  have settled {signal : Signal} (ht : u.hear app i signal = some t) (hs : ∀ w, t.waiting i = some w → Placed t i w) :
      Leasing t := by
    obtain ⟨hp, hleases, -⟩ := hear_rest ht
    exact h.apart (hapart.trans (hear_apart ht) (by rw [hl])) hs (hleases.trans hl) (hp.symm ▸ hlen) (hp.symm ▸ hcurrent)
  cases ht with
  | @leased request work p client _ hw hs ht =>
    apply settled ht
    intro w hn
    rcases hear_next ht hn with ⟨_, _, request, -, rfl⟩ | ⟨_, _, _, _, he, -⟩ | ⟨received, left, -, hbefore, rfl⟩
    · trivial
    · cases he
    · cases hw.symm.trans hbefore
      obtain ⟨stage, hat, hstage, -⟩ := h.seeking ha hj hu hw
      cases hs.symm.trans hstage
      exact ⟨_, hat.hear ht, trivial⟩
  | refused hw hs ht =>
    apply settled ht
    intro w hn
    exact absurd hn (hear_ends ht trivial w)
  | called hw hs hr ht =>
    apply settled ht
    intro w hn
    exact absurd hn (hear_ends ht trivial w)
  | silent hleased hrefused hcalled =>
    apply h.apart hapart _ hl hlen hcurrent
    intro w hw
    cases w with
    | acquiring request work =>
      obtain ⟨stage, hat, hstage, hs | ⟨p, client, rfl⟩ | ⟨e, rfl, -⟩⟩ := h.seeking ha hj hu hw
      · exact ⟨stage, hat, hs⟩
      · exact absurd hstage (hleased request work p client hw)
      · exact absurd hstage (hrefused request work e hw)
    | calling request work =>
      obtain ⟨stage, hat, hstage, hs | ⟨rfl, executor, hresult, -⟩⟩ := h.serving ha hj hu hw
      · exact ⟨stage, hat, hs⟩
      · exact absurd hstage (hcalled request work executor hw hresult)
    | _ => trivial

private theorem Leasing.returned {executor : Executor} {errors : List ExecError} (h : Leasing s)
    (hw : s.waiting i = some (.calling request work)) (hj : s.leases i = some j) (hjoined : joined executor work.operation)
    (ht : s.manage app (.act j (.complete errors)) = some t) :
    Leasing { t with results := Function.update t.results i (some executor) } := by
  obtain ⟨hg, hl, hr⟩ := manage_rest ht
  have hapart : Apart s t i := manage_apart ht (by rintro k a ⟨⟩; exact hj)
  obtain ⟨stage, hat, hs⟩ := h.placed i _ hw
  obtain ⟨n, entry, effect, hact, hat, -⟩ := hat.act hj ht
  have hwaits := waiting_of_gateway hg i
  obtain ⟨pools, hp, rfl⟩ := Option.map_eq_some_iff.mp ht
  refine h.apart { hapart with results := fun k hk => Function.update_of_ne hk _ _ } ?_ rfl (PoolManager.tasks_length_le hp)
    (PoolManager.current_step h.current hp)
  intro w hn
  cases (hwaits.trans hw).symm.trans hn
  refine ⟨_, hat, ?_⟩
  dsimp only
  rw [Function.update_self]
  exact hs.complete hjoined hact

end Task

/-- A request that ends drops its future; its task goes on without it. -/
theorem Leasing.ended {u : State} {signal : Signal} (h : Leasing s) (hu : s.dropFuture app library i = some u)
    (ht : u.hear app i signal = some t) (hs : ∀ w, t.waiting i ≠ some w) : Leasing t := by
  obtain ⟨hp, hleases, hr⟩ := hear_rest ht
  have hcancel {j : Nat} (hj : s.leases i = some j) (hu : s.manage app (.act j .cancel) = some u) : Leasing t := by
    obtain ⟨-, hl, -⟩ := manage_rest hu
    have hapart : Apart s u i := manage_apart hu (by rintro k a ⟨⟩; exact hj)
    obtain ⟨pools, hpools, rfl⟩ := Option.map_eq_some_iff.mp hu
    refine h.apart (hapart.trans (hear_apart ht) rfl) (fun w hw => absurd hw (hs w)) hleases ?_ ?_
    · rw [hp]
      exact PoolManager.tasks_length_le hpools
    · rw [hp]
      exact PoolManager.current_step h.current hpools
  rw [State.dropFuture] at hu
  split at hu
  · exact (h.authenticate hu).hear ht fun w hw => absurd hw (hs w)
  · obtain ⟨j, hj, hu⟩ := Option.bind_eq_some_iff.mp hu
    exact hcancel hj hu
  · obtain ⟨j, hj, hu⟩ := Option.bind_eq_some_iff.mp hu
    exact hcancel hj hu
  · cases hu
    exact h.hear ht fun w hw => absurd hw (hs w)

theorem Steps.leasing {e : Event} (h : Leasing s) (hs : Steps app library s e t) : Leasing t := by
  cases hs with
  | arrived inbound _ => exact h.arrived inbound
  | @started inbound _ _ _ ht => exact (h.arrived inbound).authenticate ht
  | authenticate _ ht => exact h.authenticate ht
  | authenticated _ hu ht => exact (h.authenticate hu).told ht (by simp) (by simp)
  | read ht hw =>
    apply h.hear ht
    intro w hn
    cases w with
    | acquiring request work => exact absurd hn (hw request work)
    | calling request work =>
      rcases hear_next ht hn with ⟨_, _, _, -, he⟩ | ⟨_, _, _, _, -, he⟩ | ⟨_, _, he, -⟩
      all_goals cases he
    | _ => trivial
  | refused hu _ _ ht => exact h.refused hu ht
  | acquiring hu hw hb ht => exact h.acquiring hu hw hb ht
  | pool ha hj hu ht => exact h.pool ha hj hu (delivers_of_deliver ht)
  | returned hw hj hjoined ht => exact h.returned hw hj hjoined ht
  | elapsed hu ht => exact h.ended hu ht (hear_ends ht trivial)
  | abandoned hu ht => exact h.ended hu ht (hear_ends ht trivial)
  | checked ht => exact h.told ht (by simp) (by simp)
  | maintained he ht => exact h.manage he ht
  | swept now => exact h.of_eq (fun _ => rfl) rfl rfl rfl

theorem leasing_start (app : AppState) : Leasing (start app) := by
  refine { bounded := ?bounded, injective := ?injective, current := ?current, placed := ?placed }
  case bounded => rintro i j ⟨⟩
  case injective => rintro i i' j ⟨⟩
  case current => rintro name id ⟨⟩
  case placed => rintro i w ⟨⟩

theorem leasing_run {events : List Event} (h : (machine app library).run (start app) events = some s) : Leasing s :=
  Machine.run_invariant (I := Leasing) (fun _ _ _ hi hs => (steps_of_step hs).leasing hi) h (leasing_start app)

end Steps
end Srh.Server
