import Srh.Adapters.PoolDrain
import Srh.ServerSafety

/-! The server can always come to rest. A request that waits can be dropped, the task that
it leaves behind drops its guards, and nothing that they held stays out. -/
namespace Srh.Server
open Srh.Lib Srh.Domain Srh.Ports Srh.Http Srh.Http.Gateway Srh.Adapters
open PoolManager (Stage)

def Tended : Waiting → Prop
  | .acquiring _ _ => True
  | .calling _ _ => True
  | _ => False

/-- A task that drops its guards goes on without its request. -/
def Parting : Stage → Prop
  | .dropping _ _ => True
  | _ => False

/-- Whatever works for a request is known to it: the call of the authenticator that it
waits for, and its task of the pool manager, unless that drops its guards. -/
structure Attends (s : State) (i : Nat) : Prop where
  called : ∀ token, s.waiting i = some (.authenticating token) → (s.authentication.calls i).isSome
  tended : ∀ j w, s.leases i = some j → s.waiting i = some w → Tended w
  parting : ∀ (j : Nat) task, s.leases i = some j → (∀ w, s.waiting i ≠ some w) → s.pools.tasks[j]? = some task →
    Parting task.stage
  arrived : ∀ j, s.leases i = some j → i < s.gateway.tasks.length

structure Attended (s : State) : Prop where
  each : ∀ i, Attends s i
  covered : ∀ j, j < s.pools.tasks.length → ∃ i, s.leases i = some j

section Requests
variable {app : AppState} {s t : State} {i : Nat}

private theorem lt_of_waiting {w : Waiting} (h : s.waiting i = some w) : i < s.gateway.tasks.length := by
  obtain ⟨task, ht, -⟩ := phase_of_waiting h
  exact (List.getElem?_eq_some_iff.mp ht).1

private theorem attends_unleased (hnone : s.leases i = none)
    (hcalled : ∀ token, s.waiting i = some (.authenticating token) → (s.authentication.calls i).isSome) : Attends s i := by
  refine ⟨hcalled, ?_, ?_, ?_⟩
  all_goals
    intros
    simp_all

private theorem attends_tended {w : Waiting} (hw : s.waiting i = some w) (h : Tended w) : Attends s i where
  called token ht := by
    cases hw.symm.trans ht
    exact h.elim
  tended j v _ hv := by
    cases hw.symm.trans hv
    exact h
  parting j task _ hn _ := absurd hw (hn w)
  arrived _ _ := lt_of_waiting hw

private theorem attends_ended (hn : ∀ w, s.waiting i ≠ some w) (hlt : i < s.gateway.tasks.length)
    (hp : ∀ (j : Nat) task, s.leases i = some j → s.pools.tasks[j]? = some task → Parting task.stage) : Attends s i where
  called _ ht := absurd ht (hn _)
  tended _ w _ hw := absurd hw (hn w)
  parting j task hj _ ht := hp j task hj ht
  arrived _ _ := hlt

private theorem Attends.unleased (h : Attends s i) {w : Waiting} (hw : s.waiting i = some w) (hn : ¬ Tended w) : s.leases i = none := by
  cases hj : s.leases i with
  | none => rfl
  | some j => exact absurd (h.tended j w hj hw) hn

/-- A request that the change does not concern. -/
theorem Attends.apart {k : Nat} (h : Attends s k) (hl : Lent s) (ha : Apart s t i) (hk : k ≠ i)
    (hcalls : (s.authentication.calls k).isSome → (t.authentication.calls k).isSome)
    (hlen : s.gateway.tasks.length ≤ t.gateway.tasks.length) : Attends t k where
  called token hw := hcalls (h.called token ((ha.waiting k hk).symm.trans hw))
  tended j w hj hw := h.tended j w ((ha.leases k hk).symm.trans hj) ((ha.waiting k hk).symm.trans hw)
  parting j task hj hn ht := by
    rw [ha.leases k hk] at hj
    rw [ha.waiting k hk] at hn
    have hold := List.getElem?_eq_getElem (hl.bounded k j hj)
    have hne : s.leases i ≠ some j := fun hi => hk (hl.injective k i j hj hi)
    cases (ha.tasks j _ hne hold).symm.trans ht
    exact h.parting j _ hj hn hold
  arrived j hj := (h.arrived j ((ha.leases k hk).symm.trans hj)).trans_le hlen

private theorem Attended.apart (h : Attended s) (hl : Lent s) (ha : Apart s t i) (hi : Attends t i)
    (hcalls : ∀ k, k ≠ i → (s.authentication.calls k).isSome → (t.authentication.calls k).isSome)
    (hlen : s.gateway.tasks.length ≤ t.gateway.tasks.length) (hleases : t.leases = s.leases)
    (htasks : t.pools.tasks.length = s.pools.tasks.length) : Attended t where
  each k := by
    by_cases hk : k = i
    · subst hk
      exact hi
    · exact (h.each k).apart hl ha hk (hcalls k hk) hlen
  covered := by
    rw [hleases, htasks]
    exact h.covered

end Requests

section Steps
variable {Key : Type} {app : AppState} {library : Jwt.Library Key} {s t u : State} {i j : Nat}

private theorem hear_length {signal : Signal} (h : s.hear app i signal = some t) : t.gateway.tasks.length = s.gateway.tasks.length := by
  obtain ⟨task, w, turn, -, rfl⟩ := hear_cases h
  exact List.length_set ..

private theorem hear_authentication {signal : Signal} (h : s.hear app i signal = some t) : t.authentication = s.authentication := by
  obtain ⟨gateway, -, rfl⟩ := Option.map_eq_some_iff.mp h
  rfl

private theorem Lent.hear (h : Lent s) {signal : Signal} (ht : s.hear app i signal = some t) : Lent t := by
  obtain ⟨gateway, -, rfl⟩ := Option.map_eq_some_iff.mp ht
  exact ⟨h.bounded, h.injective, h.current⟩

def early : Signal → Bool
  | .checked _ => true
  | .authenticated _ _ => true
  | .read _ _ => true
  | _ => false

private theorem hear_early {signal : Signal} (hs : early signal) (h : s.hear app i signal = some t) : ∃ w, s.waiting i = some w ∧ ¬ Tended w := by
  obtain ⟨task, w, turn, hh, -⟩ := hear_cases h
  refine ⟨w, waiting_of_phase hh.found hh.waits, ?_⟩
  cases hh.turns with
  | unleased _ | leased | finished _ | elapsed _ | abandoned _ => cases hs
  | _ => exact fun hn => hn

/-- Nothing makes a request wait for the authenticator again. -/
theorem hear_authenticated {signal : Signal} (h : s.hear app i signal = some t) (token : String) :
    t.waiting i ≠ some (.authenticating token) := by
  intro hw
  rcases hear_next h hw with ⟨_, _, _, -, he⟩ | ⟨_, _, _, _, -, he⟩ | ⟨_, _, -, -, he⟩
  all_goals cases he

private theorem hear_leased {request : Request} {work : Work} (hw : s.waiting i = some (.acquiring request work))
    (h : s.hear app i (.acquired (.ok ())) = some t) : ∃ received, t.waiting i = some (.calling received work) := by
  obtain ⟨task, w, turn, hh, rfl⟩ := hear_cases h
  cases (waiting_of_phase hh.found hh.waits).symm.trans hw
  have hturns := hh.turns
  refine ⟨hear request (.acquired (.ok ())), waiting_of_phase hh.get_self ?_⟩
  cases hturns
  rfl

/-- A request that has no task may hear anything. -/
theorem Attended.hear (h : Attended s) (hl : Lent s) {signal : Signal} (hnone : s.leases i = none)
    {authentication : Authentication.State}
    (hcalls : ∀ k, k ≠ i → (s.authentication.calls k).isSome → (authentication.calls k).isSome)
    (ht : ({ s with authentication := authentication } : State).hear app i signal = some t) : Attended t := by
  have hapart : Apart s t i := { hear_apart ht with }
  obtain ⟨hp, hleases, -⟩ := hear_rest ht
  refine h.apart hl hapart ?_ ?_ (hear_length ht).ge hleases (by rw [hp])
  · exact attends_unleased (by rw [hleases]; exact hnone) fun token hw => absurd hw (hear_authenticated ht token)
  · rw [hear_authentication ht]
    exact hcalls

private theorem Attended.early (h : Attended s) (hl : Lent s) {signal : Signal} (hs : early signal)
    (ht : s.hear app i signal = some t) : Attended t ∧ t.leases i = none := by
  obtain ⟨w, hw, hn⟩ := hear_early hs ht
  have hnone := (h.each i).unleased hw hn
  refine ⟨h.hear hl hnone (fun _ _ hc => hc) ht, ?_⟩
  rw [(hear_rest ht).2.1]
  exact hnone

private theorem act_length {action : PoolManager.Action} (h : s.manage app (.act j action) = some t) :
    t.pools.tasks.length = s.pools.tasks.length := by
  obtain ⟨pools, hp, rfl⟩ := Option.map_eq_some_iff.mp h
  obtain ⟨task, entry, effect, -, -, -, rfl⟩ := PoolManager.actTask_eq_some.mp hp
  exact List.length_set ..

private theorem manage_authentication {event : PoolManager.Event} (h : s.manage app event = some t) : t.authentication = s.authentication := by
  obtain ⟨pools, -, rfl⟩ := Option.map_eq_some_iff.mp h
  rfl

/-- The task of a request makes a step, and the request may hear of it. -/
theorem Attended.act (h : Attended s) (hl : Lent s) {action : PoolManager.Action} (hj : s.leases i = some j)
    (hu : s.manage app (.act j action) = some u) (ha : Apart u t i) (hi : Attends t i) (hg : t.authentication = u.authentication)
    (hlen : t.gateway.tasks.length = u.gateway.tasks.length) (hleases : t.leases = u.leases) (hpools : t.pools = u.pools) :
    Attended t := by
  obtain ⟨hgateway, hl', -⟩ := manage_rest hu
  have hapart : Apart s u i := manage_apart hu (by rintro k a ⟨⟩; exact hj)
  refine h.apart hl (hapart.trans ha (by rw [hl'])) hi ?_ ?_ (hleases.trans hl') ?_
  · rw [hg, manage_authentication hu]
    exact fun _ _ hc => hc
  · rw [hlen, hgateway]
  · rw [hpools, act_length hu]

private theorem act_task {action : PoolManager.Action} (h : s.manage app (.act j action) = some t) :
    ∃ n entry task effect, s.pools.tasks[j]? = some task ∧ PoolManager.act n entry action task.stage = some effect ∧
      t.pools.tasks[j]? = some { task with stage := effect.stage } := by
  obtain ⟨pools, hp, rfl⟩ := Option.map_eq_some_iff.mp h
  obtain ⟨task, entry, effect, hi, -, hact, rfl⟩ := PoolManager.actTask_eq_some.mp hp
  exact ⟨_, entry, task, effect, hi, hact, List.getElem?_set_self (List.getElem?_eq_some_iff.mp hi).1⟩

private theorem Parting.act {n : Nat} {entry : PoolManager.PoolEntry} {action : PoolManager.Action} {stage : Stage} {effect : PoolManager.Effect}
    (h : Parting stage) (hact : PoolManager.act n entry action stage = some effect) : Parting effect.stage := by
  revert hact
  fun_cases PoolManager.act n entry action stage
  case case16 => rintro ⟨⟩; trivial
  case case17 => rintro ⟨⟩; trivial
  all_goals first | exact h.elim | rintro ⟨⟩

private theorem parting_cancel {n : Nat} {entry : PoolManager.PoolEntry} {stage : Stage} {effect : PoolManager.Effect}
    (hact : PoolManager.act n entry .cancel stage = some effect) : Parting effect.stage := by
  rw [PoolManager.act] at hact
  split at hact
  · cases hact
    trivial
  · cases hact

/-- A request that ends with the last step of its task leaves nothing behind. -/
theorem Attended.ended (h : Attended s) (hl : Lent s) {action : PoolManager.Action} {signal : Signal} (hj : s.leases i = some j)
    (hu : s.manage app (.act j action) = some u) (ht : u.hear app i signal = some t) (hs : Final signal)
    (hp : ∀ task, u.pools.tasks[j]? = some task → Parting task.stage) : Attended t := by
  obtain ⟨hpools, hleases, -⟩ := hear_rest ht
  refine h.act hl hj hu (hear_apart ht) ?_ (hear_authentication ht) (hear_length ht) hleases hpools
  apply attends_ended (hear_ends ht hs)
  · rw [hear_length ht, (manage_rest hu).1]
    exact (h.each i).arrived j hj
  · intro k task hk htask
    rw [hleases, (manage_rest hu).2.1] at hk
    cases hj.symm.trans hk
    rw [hpools] at htask
    exact hp task htask

private theorem parting_of_stage {held : List PoolManager.Resource} {error : Option AcquireError} (hs : s.stage j = some (.dropping held error))
    (task : PoolManager.Task) (ht : s.pools.tasks[j]? = some task) : Parting task.stage := by
  rw [State.stage, ht] at hs
  rw [Option.some.inj hs]
  trivial

private theorem Attended.pool (h : Attended s) (hl : Lent s) {action : PoolManager.Action} (hj : s.leases i = some j)
    (hu : s.manage app (.act j action) = some u) (ht : Delivers app u i j t) : Attended t := by
  cases ht with
  | leased hw _ ht =>
    obtain ⟨received, hcalling⟩ := hear_leased hw ht
    obtain ⟨hpools, hleases, -⟩ := hear_rest ht
    exact h.act hl hj hu (hear_apart ht) (attends_tended hcalling trivial) (hear_authentication ht) (hear_length ht) hleases hpools
  | refused _ hs ht => exact h.ended hl hj hu ht trivial (parting_of_stage hs)
  | called _ hs _ ht => exact h.ended hl hj hu ht trivial (parting_of_stage hs)
  | silent _ _ _ =>
    refine h.act hl hj hu (.refl t i) ?_ rfl rfl rfl rfl
    have hwaits := waiting_of_gateway (manage_rest hu).1 i
    cases hw : t.waiting i with
    | some w => exact attends_tended hw ((h.each i).tended j w hj (hwaits.symm.trans hw))
    | none =>
      apply attends_ended (by simp [hw])
      · rw [(manage_rest hu).1]
        exact (h.each i).arrived j hj
      · intro k task hk htask
        rw [(manage_rest hu).2.1] at hk
        cases hj.symm.trans hk
        obtain ⟨n, entry, old, effect, hold, hact, hnew⟩ := act_task hu
        cases hnew.symm.trans htask
        exact ((h.each i).parting j old hj (by simp [← hwaits, hw]) hold).act hact

/-- A request gets the task that it asks for. -/
theorem Attended.acquiring (h : Attended s) (hl : Lent s) {request : Request} {work : Work} {buildError : Option String}
    {built : PoolManager.World × Nat} (hnone : s.leases i = none) (hw : s.waiting i = some (.acquiring request work))
    (hb : PoolManager.getOrBuild app.cfg.pools s.pools request.identity.pool buildError = .ok built)
    (ht : s.manage app (.acquire request.identity.pool buildError) = some t) :
    Attended { t with leases := Function.update t.leases i (some s.pools.tasks.length) } := by
  obtain ⟨hg, hleases, -⟩ := manage_rest ht
  have hapart : Apart s t i := manage_apart ht (by rintro k a ⟨⟩)
  obtain ⟨entry, -, -, htasks⟩ := PoolManager.getOrBuild_task hl.current hb
  have hlen : t.pools.tasks.length = s.pools.tasks.length + 1 := by
    obtain ⟨pools, hp, rfl⟩ := Option.map_eq_some_iff.mp ht
    cases hp
    rw [htasks, List.length_append, List.length_singleton]
  constructor
  case each =>
    intro k
    by_cases hk : k = i
    · subst hk
      exact attends_tended ((waiting_of_gateway hg k).trans hw) trivial
    · have hupdated : Apart s { t with leases := Function.update t.leases i (some s.pools.tasks.length) } i :=
        { hapart with leases := fun k hk => (Function.update_of_ne hk _ _).trans (hapart.leases k hk) }
      refine (h.each k).apart hl hupdated hk ?_ (by rw [hg])
      rw [manage_authentication ht]
      exact id
  case covered =>
    intro j hj
    by_cases hlast : j = s.pools.tasks.length
    · exact ⟨i, hlast ▸ Function.update_self ..⟩
    · obtain ⟨k, hk⟩ := h.covered j (by dsimp only at hj; omega)
      have hne : k ≠ i := by
        rintro rfl
        cases hnone.symm.trans hk
      exact ⟨k, (Function.update_of_ne hne _ _).trans (by rw [hleases]; exact hk)⟩

/-- A request that has just arrived has no task. -/
theorem Attended.arrived (h : Attended s) (hl : Lent s) (inbound : Inbound) {authentication : Authentication.State}
    (hcalls : ∀ k, k ≠ s.gateway.tasks.length → (s.authentication.calls k).isSome → (authentication.calls k).isSome)
    (hcalled : ∀ token, (Server.arrived app s inbound).waiting s.gateway.tasks.length = some (.authenticating token) →
      (authentication.calls s.gateway.tasks.length).isSome) :
    Attended { Server.arrived app s inbound with authentication := authentication } := by
  have hapart : Apart s { Server.arrived app s inbound with authentication := authentication } s.gateway.tasks.length :=
    { arrived_apart s inbound with }
  have hlen : s.gateway.tasks.length ≤ (Server.arrived app s inbound).gateway.tasks.length := by
    rw [Server.arrived, Gateway.State.arrive, List.length_append]
    exact Nat.le_add_right ..
  refine h.apart hl hapart (attends_unleased ?_ hcalled) hcalls hlen rfl rfl
  cases hj : s.leases s.gateway.tasks.length with
  | none => exact hj
  | some j => exact absurd ((h.each _).arrived j hj) (lt_irrefl _)

/-- A request that leaves drops its future. -/
theorem Attended.left (h : Attended s) (hl : Lent s) {signal : Signal} (hu : s.dropFuture app library i = some u)
    (ht : u.hear app i signal = some t) (hs : Final signal) : Attended t := by
  have hcancel {j : Nat} (hj : s.leases i = some j) (hu : s.manage app (.act j .cancel) = some u) : Attended t := by
    apply h.ended hl hj hu ht hs
    intro task htask
    obtain ⟨n, entry, old, effect, -, hact, hnew⟩ := act_task hu
    cases hnew.symm.trans htask
    exact parting_cancel hact
  rw [State.dropFuture] at hu
  split at hu
  · rename_i token hw
    obtain ⟨authentication, ha, rfl⟩ := Option.map_eq_some_iff.mp hu
    refine h.hear hl ((h.each i).unleased hw fun hn => hn) ?_ ht
    intro k hk hc
    rwa [(Authentication.abandon_calls ha).1, Function.update_of_ne hk]
  · obtain ⟨j, hj, hu⟩ := Option.bind_eq_some_iff.mp hu
    exact hcancel hj hu
  · obtain ⟨j, hj, hu⟩ := Option.bind_eq_some_iff.mp hu
    exact hcancel hj hu
  · rename_i hacquiring hcalling
    cases hu
    obtain ⟨task, w, turn, hh, -⟩ := hear_cases ht
    have hw := waiting_of_phase hh.found hh.waits
    refine h.hear hl ((h.each i).unleased hw ?_) (fun _ _ hc => hc) ht
    cases w with
    | acquiring request work => exact absurd hw (hacquiring request work)
    | calling request work => exact absurd hw (hcalling request work)
    | _ => exact fun hn => hn

/-- What no request is told of concerns none of them. -/
theorem Attended.aside (h : Attended s) (hl : Lent s) (ha : ∀ i, Apart s t i)
    (hcalls : ∀ i, (s.authentication.calls i).isSome → (t.authentication.calls i).isSome)
    (hlen : t.gateway.tasks.length = s.gateway.tasks.length) (hleases : t.leases = s.leases)
    (htasks : t.pools.tasks = s.pools.tasks) : Attended t where
  each i := (h.each i).apart hl (ha (i + 1)) (by omega) (hcalls i) hlen.ge
  covered := by
    rw [hleases, htasks]
    exact h.covered

private theorem Steps.attended {e : Event} (h : Attended s) (hl : Lent s) (hs : Steps app library s e t) : Attended t := by
  cases hs with
  | arrived inbound hw => exact h.arrived hl inbound (fun _ _ hc => hc) fun token ht => absurd ht (hw token)
  | @started inbound token _ _ ht =>
    obtain ⟨authentication, ha, rfl⟩ := Option.map_eq_some_iff.mp ht
    obtain ⟨hcalls, -⟩ := Authentication.start_calls ha
    apply h.arrived hl inbound
    · intro k hk hc
      rwa [hcalls, Function.update_of_ne hk]
    · intro _ _
      rw [hcalls, Function.update_self]
      rfl
  | authenticate he ht =>
    obtain ⟨authentication, ha, rfl⟩ := Option.map_eq_some_iff.mp ht
    refine h.aside hl (fun i => { Apart.refl s i with }) ?_ rfl rfl rfl
    intro i hc
    rw [← Option.isSome_map, (Authentication.framed_step he ha).keys i, Option.isSome_map]
    exact hc
  | @authenticated i _ _ _ _ _ _ hc hu ht =>
    obtain ⟨w, hw, hn⟩ := hear_early rfl ht
    obtain ⟨authentication, ha, rfl⟩ := Option.map_eq_some_iff.mp hu
    refine h.hear hl ((h.each i).unleased hw hn) ?_ ht
    intro k hk hk'
    rwa [(Authentication.finish_calls hc ha).1, Function.update_of_ne hk]
  | read ht _ => exact (h.early hl rfl ht).1
  | refused hu hw _ ht =>
    obtain ⟨hread, hnone⟩ := h.early hl rfl hu
    exact hread.hear (hl.hear hu) hnone (fun _ _ hc => hc) ht
  | acquiring hu hw hb ht =>
    obtain ⟨hread, hnone⟩ := h.early hl rfl hu
    exact hread.acquiring (hl.hear hu) hnone hw hb ht
  | pool _ hj hu ht => exact h.pool hl hj hu (delivers_of_deliver ht)
  | returned hw hj _ ht =>
    have hwaits := waiting_of_gateway (manage_rest ht).1
    have hattended := h.act hl hj ht (.refl _ _) (attends_tended ((hwaits _).trans hw) trivial) rfl rfl rfl rfl
    exact ⟨fun i => { hattended.each i with }, hattended.covered⟩
  | elapsed hu ht => exact h.left hl hu ht trivial
  | abandoned hu ht => exact h.left hl hu ht trivial
  | checked ht => exact (h.early hl rfl ht).1
  | maintained he ht =>
    obtain ⟨hg, hleases, -⟩ := manage_rest ht
    refine h.aside hl (fun i => manage_apart ht (by rintro k a rfl; cases he)) ?_ (by rw [hg]) hleases ?_
    · rw [manage_authentication ht]
      exact fun _ hc => hc
    · obtain ⟨pools, hp, rfl⟩ := Option.map_eq_some_iff.mp ht
      exact (PoolManager.step_quiet hp (by rintro name err rfl; cases he) (by rintro k a rfl; cases he)).2.1
  | swept now => exact h.aside hl (fun i => { Apart.refl s i with }) (fun _ hc => hc) rfl rfl rfl

private theorem attended_run {events : List Event} (h : (machine app library).run (start app) events = some s) : Attended s := by
  have hboth : Leasing s ∧ Attended s := by
    refine Machine.run_invariant (I := fun s => Leasing s ∧ Attended s) ?_ h ⟨leasing_start app, ?_⟩
    · rintro s e t ⟨hl, ha⟩ ht
      exact ⟨(steps_of_step ht).leasing hl, (steps_of_step ht).attended ha hl.toLent⟩
    · refine ⟨fun i => attends_unleased rfl ?_, ?_⟩
      · rintro token ⟨⟩
      · intro j hj
        exact absurd hj (Nat.not_lt_zero j)
  exact hboth.2

end Steps

section Rest
variable {Key : Type} {app : AppState} {library : Jwt.Library Key} {s t u : State} {i j : Nat}

/-- What is left to do: the requests that wait, and the steps of the tasks of the pool
manager to their ends. -/
def State.load (s : State) : Nat := s.gateway.tasks.countP Task.waits + s.pools.rank

def Event.leaves : Event → Bool
  | .abandon _ => true
  | .pool _ _ => true
  | _ => false

private theorem hear_enabled {signal : Signal} {w : Waiting} (hw : s.waiting i = some w)
    (h : ∀ limiter task, ∃ turn, Gateway.turn app limiter task signal w = some turn) : ∃ t, s.hear app i signal = some t := by
  obtain ⟨task, hi, hp⟩ := phase_of_waiting hw
  obtain ⟨turn, hturn⟩ := h s.gateway.limiter task
  refine ⟨_, Option.map_eq_some_iff.mpr ⟨s.gateway.withTurn i task signal turn, ?_, rfl⟩⟩
  simp only [Gateway.machine, Gateway.step, hi, hp, Phase.waiting?, Option.bind_eq_bind, Option.bind_some, hturn]

private theorem abandon_enabled (app : AppState) {w : Waiting} (hw : s.waiting i = some w) : ∃ t, s.hear app i .abandon = some t :=
  hear_enabled hw fun _ _ => ⟨_, rfl⟩

private theorem hear_countP {signal : Signal} (h : s.hear app i signal = some t) :
    t.gateway.tasks.countP Task.waits ≤ s.gateway.tasks.countP Task.waits ∧
      ((∀ w, t.waiting i ≠ some w) → t.gateway.tasks.countP Task.waits < s.gateway.tasks.countP Task.waits) := by
  obtain ⟨task, w, turn, hh, rfl⟩ := hear_cases h
  obtain ⟨hlt, hget⟩ := List.getElem?_eq_some_iff.mp hh.found
  have hwaits : task.waits = true := by
    rw [Task.waits, hh.waits]
    rfl
  have hpos := List.countP_pos_iff.mpr ⟨task, List.mem_of_getElem? hh.found, hwaits⟩
  simp only [Gateway.State.withTurn, List.countP_set hlt, hget, hwaits, if_true]
  refine ⟨by split <;> omega, fun hn => ?_⟩
  have hover : (task.turned signal turn).waits = false := by
    cases hp : turn.phase with
    | waiting v => exact absurd (waiting_of_phase hh.get_self hp) (hn v)
    | _ => simp [Task.waits, Task.turned, hp, Phase.waiting?]
  rw [hover]
  simp only [Bool.false_eq_true, if_false]
  omega

/-- What a task tells its request is always welcome. -/
theorem deliver_enabled (app : AppState) (s : State) (i j : Nat) : ∃ t, s.deliver app i j = some t ∧ t.load ≤ s.load := by
  have hload {signal : Signal} {w : Waiting} (hw : s.waiting i = some w)
      (h : ∀ limiter task, ∃ turn, Gateway.turn app limiter task signal w = some turn) :
      ∃ t, s.hear app i signal = some t ∧ t.load ≤ s.load := by
    obtain ⟨t, ht⟩ := hear_enabled hw h
    refine ⟨t, ht, ?_⟩
    rw [State.load, State.load, (hear_rest ht).1]
    exact Nat.add_le_add_right (hear_countP ht).1 _
  rw [State.deliver]
  split
  · exact hload (by assumption) fun _ _ => ⟨_, rfl⟩
  · exact hload (by assumption) fun _ _ => ⟨_, rfl⟩
  · exact hload (by assumption) fun _ _ => ⟨_, rfl⟩
  · exact ⟨s, rfl, le_rfl⟩

private theorem wayOut_cases (stage : Stage) : stage.suspended ∧ stage.wayOut = .cancel ∨ ownAction stage.wayOut := by
  cases stage <;> simp [Stage.suspended, Stage.wayOut, ownAction]

/-- The next step of a task on its way out is always possible. -/
theorem manage_wayOut (app : AppState) (hhomed : PoolManager.Homed s.pools) {task : PoolManager.Task} (ht : s.pools.tasks[j]? = some task)
    (hlive : task.Live) : ∃ u, s.manage app (.act j task.stage.wayOut) = some u ∧ u.pools.rank < s.pools.rank := by
  have hentry := List.getElem?_eq_getElem (hhomed task (List.mem_of_getElem? ht))
  obtain ⟨effect, hact, hlt⟩ := PoolManager.act_wayOut s.pools.instant _ hlive
  obtain ⟨rest, hrank, hset⟩ := tally_frame (fun t : PoolManager.Task => t.stage.rank) ht
  have hstep := PoolManager.actTask_eq_some.mpr ⟨task, _, effect, ht, hentry, hact, rfl⟩
  refine ⟨_, Option.map_eq_some_iff.mpr ⟨_, hstep, rfl⟩, ?_⟩
  simp only [PoolManager.World.rank, PoolManager.World.withEffect, hrank, hset]
  exact Nat.add_lt_add_right hlt rest

private theorem exists_pool (app : AppState) (library : Jwt.Library Key) (hhomed : PoolManager.Homed s.pools) (hj : s.leases i = some j)
    {task : PoolManager.Task} (ht : s.pools.tasks[j]? = some task) (hlive : task.Live) (hown : ownAction task.stage.wayOut) :
    ∃ t, step app library s (.pool i task.stage.wayOut) = some t ∧ t.load < s.load := by
  obtain ⟨u, hu, hlt⟩ := manage_wayOut app hhomed ht hlive
  obtain ⟨t, hdeliver, hle⟩ := deliver_enabled app u i j
  refine ⟨t, ?_, hle.trans_lt ?_⟩
  · simp only [step, hown, if_true, hj, Option.bind_some, hu, hdeliver]
  · rw [State.load, State.load, (manage_rest hu).1]
    exact Nat.add_lt_add_left hlt _

private theorem exists_abandon {w : Waiting} (hw : s.waiting i = some w) (hu : s.dropFuture app library i = some u)
    (hle : u.pools.rank ≤ s.pools.rank) : ∃ t, step app library s (.abandon i) = some t ∧ t.load < s.load := by
  have hg := dropFuture_gateway hu
  obtain ⟨t, ht⟩ := abandon_enabled app ((waiting_of_gateway hg i).trans hw)
  refine ⟨t, ?_, ?_⟩
  · simp only [step, hu, Option.bind_some, ht]
  · have hlive := (hear_countP ht).2 (hear_ends ht trivial)
    rw [State.load, State.load, (hear_rest ht).1, ← hg]
    exact Nat.add_lt_add_of_lt_of_le hlive hle

private theorem Seeking.live {stage : Stage} (h : Seeking stage) : 0 < stage.rank := by
  cases stage with
  | dropping held error => exact List.length_pos_iff.mpr h.1
  | _ => exact Nat.succ_pos _

private theorem Serving.live {results : Option Executor} {operation : Operation} {stage : Stage} (h : Serving results operation stage) :
    0 < stage.rank := by
  cases stage with
  | dropping held error =>
    obtain ⟨-, ⟨client, hlast⟩, -⟩ := h
    exact List.length_pos_of_mem (List.mem_of_getLast? hlast)
  | _ => exact Nat.succ_pos _

/-- A request that waits for its pool or for Redis leaves, or its task goes on. -/
theorem exists_tended (hhomed : PoolManager.Homed s.pools) {w : Waiting} {identity : Identity} {stage : Stage}
    (hw : s.waiting i = some w) (ht : Tended w) (hat : At s i identity stage) (hlive : 0 < stage.rank) :
    ∃ e t, e.leaves ∧ step app library s e = some t ∧ t.load < s.load := by
  obtain ⟨j, task, entry, hj, htask, rfl, -, -⟩ := hat
  rcases wayOut_cases task.stage with ⟨-, hcancel⟩ | hown
  · obtain ⟨u, hu, hlt⟩ := manage_wayOut app hhomed htask hlive
    rw [hcancel] at hu
    have hdrop : s.dropFuture app library i = some u := by
      cases w with
      | acquiring request work => simp only [State.dropFuture, hw, hj, Option.bind_some, hu]
      | calling request work => simp only [State.dropFuture, hw, hj, Option.bind_some, hu]
      | _ => exact ht.elim
    obtain ⟨t, hstep, hload⟩ := exists_abandon hw hdrop hlt.le
    exact ⟨_, t, rfl, hstep, hload⟩
  · obtain ⟨t, hstep, hload⟩ := exists_pool app library hhomed hj htask hlive hown
    exact ⟨_, t, rfl, hstep, hload⟩

/-- Before that it leaves at once. -/
theorem exists_untended (ha : Attended s) {w : Waiting} (hw : s.waiting i = some w) (ht : ¬ Tended w) :
    ∃ e t, e.leaves ∧ step app library s e = some t ∧ t.load < s.load := by
  have hdrop : ∃ u, s.dropFuture app library i = some u ∧ u.pools = s.pools := by
    cases w with
    | acquiring request work => exact absurd trivial ht
    | calling request work => exact absurd trivial ht
    | authenticating token =>
      have hcall := (ha.each i).called token hw
      simp only [State.dropFuture, hw, State.authenticate, Authentication.step, hcall, if_true, Option.map_some]
      exact ⟨_, rfl, rfl⟩
    | checking => exact ⟨s, by simp only [State.dropFuture, hw], rfl⟩
    | reading request => exact ⟨s, by simp only [State.dropFuture, hw], rfl⟩
  obtain ⟨u, hu, hpools⟩ := hdrop
  obtain ⟨t, hstep, hload⟩ := exists_abandon hw hu (by rw [hpools])
  exact ⟨_, t, rfl, hstep, hload⟩

def Busy (s : State) : Prop := (∃ i w, s.waiting i = some w) ∨ ∃ task ∈ s.pools.tasks, task.Live

private theorem exists_leave (ha : Attended s) (hl : Leasing s) (hhomed : PoolManager.Homed s.pools) (h : Busy s) :
    ∃ e t, e.leaves ∧ step app library s e = some t ∧ t.load < s.load := by
  by_cases hwaits : ∃ i w, s.waiting i = some w
  · obtain ⟨i, w, hw⟩ := hwaits
    have hplaced := hl.placed i w hw
    cases w with
    | acquiring request work =>
      obtain ⟨stage, hat, hs⟩ := hplaced
      exact exists_tended hhomed hw trivial hat hs.live
    | calling request work =>
      obtain ⟨stage, hat, hs⟩ := hplaced
      exact exists_tended hhomed hw trivial hat hs.live
    | _ => exact exists_untended ha hw fun hn => hn
  · obtain ⟨task, ht, hlive⟩ := h.resolve_left hwaits
    obtain ⟨j, hj⟩ := List.mem_iff_getElem?.mp ht
    obtain ⟨i, hi⟩ := ha.covered j (List.getElem?_eq_some_iff.mp hj).1
    have hparting := (ha.each i).parting j task hi (fun w hw => hwaits ⟨i, w, hw⟩) hj
    have hown : ownAction task.stage.wayOut := by
      cases hs : task.stage with
      | dropping held error => rfl
      | _ => rw [hs] at hparting; exact hparting.elim
    obtain ⟨t, hstep, hload⟩ := exists_pool app library hhomed hi hj hlive hown
    exact ⟨_, t, rfl, hstep, hload⟩

structure Idle (entry : PoolManager.PoolEntry) : Prop where
  available : entry.available = entry.config.maxConnections
  waiters : entry.waiters = 0
  clients : ∀ taken ∈ entry.clientLeases, taken = false
  breaker : entry.breaker.state ≠ .halfOpen

private theorem idle_of_rest {events : List PoolManager.Event} {w : PoolManager.World}
    (hrun : (PoolManager.machine app.cfg.pools).run .new events = some w) (hrest : ∀ task ∈ w.tasks, ¬ task.Live)
    (entry : PoolManager.PoolEntry) (he : entry ∈ w.entries) : Idle entry := by
  obtain ⟨e, he⟩ := List.mem_iff_getElem?.mp he
  have hheld : PoolManager.heldOn w.tasks e = 0 :=
    PoolManager.heldOn_eq_zero fun task ht _ => PoolManager.held_of_not_live (hrest task ht)
  have hbalanced := (PoolManager.balanced_invariant.run hrun).2 e entry he
  have hleased := (PoolManager.leased_invariant.run hrun).2 e entry he
  rw [hheld] at hbalanced hleased
  refine ⟨hbalanced.permits, hbalanced.waiters, ?_, ?_⟩
  · intro taken hm
    by_contra hne
    have hbusy := hleased.flagged.busy
    rw [Bool.not_eq_false] at hne
    exact List.count_eq_zero.mp hbusy.symm (hne ▸ hm)
  · exact PoolManager.not_halfOpen_of_idle (PoolManager.probed_invariant.run hrun) he fun task ht _ => hrest task ht

private theorem rest_of_idle {maxInFlight : Nat} (h : Gateway.Balanced maxInFlight s.gateway) (hn : ∀ i w, s.waiting i ≠ some w) :
    s.gateway.available = maxInFlight ∧ s.gateway.inFlight = 0 := by
  have hover : ∀ task ∈ s.gateway.tasks, ¬ task.waits = true := by
    intro task ht
    obtain ⟨i, hi⟩ := List.mem_iff_getElem?.mp ht
    cases hp : task.phase with
    | waiting w => exact absurd (waiting_of_phase hi hp) (hn i w)
    | _ => simp [Task.waits, hp, Phase.waiting?]
  have hpermits := h.permits_eq
  rw [List.countP_eq_zero.mpr fun task ht hin => hover task ht (Task.waits_of_inApi hin)] at hpermits
  have hgauge := h.gauge_eq
  rw [List.countP_eq_zero.mpr hover] at hgauge
  exact ⟨hpermits, hgauge⟩

end Rest

/-- At any time the server can come to rest, by nothing more than requests that leave and
tasks that go on: without an answer of Redis or of the identity provider, and without the
clock. Then no request waits and no call of the authenticator is open, all permits of the
service and of every pool ever built are back, and no breaker waits for a probe. -/
theorem server_drains {Key : Type} (app : AppState) (library : Jwt.Library Key) (events : List Event) (s : State)
    (hrun : (machine app library).run (start app) events = some s) :
    ∃ more t, (machine app library).run s more = some t ∧ (∀ e ∈ more, e.leaves) ∧ (∀ i, t.waiting i = none) ∧
      (∀ i, t.authentication.calls i = none) ∧ t.gateway.available = app.cfg.server.load.maxInFlight ∧ t.gateway.inFlight = 0 ∧
      ∀ entry ∈ t.pools.entries, Idle entry := by
  have hprogress : ∀ u, (machine app library).Reaches (start app) u → Busy u →
      ∃ e t, e.leaves = true ∧ (machine app library).step u e = some t ∧ t.load < u.load := by
    rintro u ⟨before, hu⟩ hbusy
    obtain ⟨-, -, ⟨_, hpools⟩⟩ := run_advances hu
    exact exists_leave (attended_run hu) (leasing_run hu) (PoolManager.balanced_invariant.run hpools).1 hbusy
  obtain ⟨more, t, hmore, hleaves, hdone⟩ := Machine.exists_run_done State.load
    (fun _ _ _ hi hs => hi.trans (Machine.reaches_step hs)) hprogress ⟨events, hrun⟩
  have hall : (machine app library).run (start app) (events ++ more) = some t := by
    rw [Machine.run_append, hrun]
    exact hmore
  obtain ⟨⟨_, hgateway⟩, -, ⟨_, hpools⟩⟩ := run_advances hall
  have hwaits : ∀ i w, t.waiting i ≠ some w := fun i w hw => hdone (.inl ⟨i, w, hw⟩)
  obtain ⟨havailable, hinFlight⟩ := rest_of_idle (Gateway.balanced_run hgateway) hwaits
  refine ⟨more, t, hmore, hleaves, fun i => Option.eq_none_iff_forall_ne_some.mpr (hwaits i),
    fun i => (admitted_run hall).calls_none fun token => hwaits i _, havailable, hinFlight, ?_⟩
  exact idle_of_rest hpools fun task ht hlive => hdone (.inr ⟨task, ht, hlive⟩)

theorem server_drains_sample : ∃ s more t,
    (machine sampleServer sampleLibrary).run (start sampleServer) untilCalled = some s ∧
      (machine sampleServer sampleLibrary).run s more = some t ∧ t.waiting 0 = none ∧ ∀ entry ∈ t.pools.entries, Idle entry := by
  obtain ⟨s, -, -, -, hrun, -⟩ := untilCalled_calls
  obtain ⟨more, t, hmore, -, hwaiting, -, -, -, hidle⟩ := server_drains sampleServer sampleLibrary untilCalled s hrun
  exact ⟨s, more, t, hrun, hmore, hwaiting 0, hidle⟩

end Srh.Server
