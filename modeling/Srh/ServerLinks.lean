import Srh.Http.GatewayTrace
import Srh.ServerComponents

/-! What ties the components of the server together in every interleaving: what a request
has been told is what the authenticator and the pool manager have returned. -/
namespace Srh.Server
open Srh.Lib Srh.Domain Srh.Ports Srh.Http Srh.Http.Gateway Srh.Adapters

section Tasks
variable {app : AppState} {s t : State} {i : Nat} {signal : Signal}

structure Hears (app : AppState) (s : State) (i : Nat) (signal : Signal) (task : Task) (w : Waiting) (turn : Turn) : Prop where
  found : s.gateway.tasks[i]? = some task
  waits : task.phase = .waiting w
  turns : Turns app s.gateway.limiter task signal w turn

theorem hear_cases (h : s.hear app i signal = some t) :
    ∃ task w turn, Hears app s i signal task w turn ∧ t = { s with gateway := s.gateway.withTurn i task signal turn } := by
  obtain ⟨gateway, hg, rfl⟩ := Option.map_eq_some_iff.mp h
  rcases step_cases hg with ⟨_, he, -⟩ | ⟨_, _, task, w, turn, he, hi, hw, ht, rfl⟩ | ⟨_, he, -⟩
  · cases he
  · cases he
    exact ⟨task, w, turn, ⟨hi, hw, ht⟩, rfl⟩
  · cases he

theorem Hears.get {task : Task} {w : Waiting} {turn : Turn} (h : Hears app s i signal task w turn) {j : Nat} {other : Task}
    (hj : (s.gateway.withTurn i task signal turn).tasks[j]? = some other) :
    j = i ∧ other = task.turned signal turn ∨ j ≠ i ∧ s.gateway.tasks[j]? = some other := by
  simp only [Gateway.State.withTurn] at hj
  by_cases hij : i = j
  · subst hij
    rw [List.getElem?_set_self (List.getElem?_eq_some_iff.mp h.found).1] at hj
    cases hj
    exact .inl ⟨rfl, rfl⟩
  · rw [List.getElem?_set_ne hij] at hj
    exact .inr ⟨Ne.symm hij, hj⟩

theorem Hears.get_self {task : Task} {w : Waiting} {turn : Turn} (h : Hears app s i signal task w turn) :
    (s.gateway.withTurn i task signal turn).tasks[i]? = some (task.turned signal turn) :=
  List.getElem?_set_self (List.getElem?_eq_some_iff.mp h.found).1

theorem withTurn_ne {task : Task} {turn : Turn} {j : Nat} (hj : j ≠ i) :
    (s.gateway.withTurn i task signal turn).tasks[j]? = s.gateway.tasks[j]? :=
  List.getElem?_set_ne (Ne.symm hj)

theorem waiting_of_phase {task : Task} {w : Waiting} (h : s.gateway.tasks[i]? = some task) (hw : task.phase = .waiting w) :
    s.waiting i = some w := by
  rw [State.waiting, h, Option.bind_some, hw]
  rfl

theorem phase_of_waiting {w : Waiting} (h : s.waiting i = some w) :
    ∃ task, s.gateway.tasks[i]? = some task ∧ task.phase = .waiting w := by
  obtain ⟨task, ht, hw⟩ := Option.bind_eq_some_iff.mp h
  exact ⟨task, ht, waiting_of_waiting? hw⟩

/-- The deed of authentication names the credential that the task waited for and the
answer that it heard. -/
theorem turns_authenticate {limiter : RateLimit.State String} {task : Task} {w : Waiting} {turn : Turn} {token : String}
    {answer : Except AuthError (Option Identity)} (h : Turns app limiter task signal w turn)
    (hm : .authenticate token answer ∈ turn.deeds) : ∃ now, signal = .authenticated now answer ∧ w = .authenticating token := by
  cases h with
  | rejected h =>
    cases List.mem_singleton.mp hm
    exact ⟨_, rfl, rfl⟩
  | limited h | probed h =>
    rcases List.mem_cons.mp hm with he | hm
    · cases he
      exact ⟨_, rfl, rfl⟩
    · cases List.mem_singleton.mp hm
  | elapsed _ | abandoned _ => cases w <;> simp [Waiting.lease] at hm
  | _ => simp [afterAccess] at hm

end Tasks

section Authentication
variable {Key : Type} {app : AppState} {library : Jwt.Library Key} {s t : State} {i : Nat}

/-- A call of the authenticator is for the credential of the request that waits for it,
and what a request went by is an answer that was given for its credential. -/
structure Admitted (s : State) : Prop where
  called : ∀ i call, s.authentication.calls i = some call →
    ∃ task, s.gateway.tasks[i]? = some task ∧ task.phase = .waiting (.authenticating call.bearer)
  answered : ∀ (i : Nat) (task : Task) token answer, s.gateway.tasks[i]? = some task → .authenticate token answer ∈ task.deeds →
    ∃ before ticket, before ++ [.answered i ticket token answer] <+: s.authentication.journal

/-- The authenticator goes on by itself. -/
theorem Admitted.authenticate (h : Admitted s) {event : Authentication.Event} (he : event.inner)
    (ht : s.authenticate app library event = some t) : Admitted t := by
  obtain ⟨authentication, ha, rfl⟩ := Option.map_eq_some_iff.mp ht
  constructor
  case called =>
    intro i call hc
    have hkeys := (Authentication.framed_step he ha).keys i
    rw [hc] at hkeys
    obtain ⟨old, ho, hk⟩ := Option.map_eq_some_iff.mp hkeys.symm
    have hbearer : old.bearer = call.bearer := congrArg Prod.snd hk
    rw [← hbearer]
    exact h.called i old ho
  case answered =>
    intro i task token answer hi hm
    obtain ⟨before, ticket, hbefore⟩ := h.answered i task token answer hi hm
    exact ⟨before, ticket, hbefore.trans (Authentication.journal_step ha)⟩

theorem Admitted.calls_none (h : Admitted s) (hw : ∀ token, s.waiting i ≠ some (.authenticating token)) :
    s.authentication.calls i = none := by
  cases hc : s.authentication.calls i with
  | none => rfl
  | some call =>
    obtain ⟨task, hi, hp⟩ := h.called i call hc
    exact absurd (waiting_of_phase hi hp) (hw call.bearer)

/-- A request that has no call of the authenticator may hear anything that the journal
accounts for. -/
theorem Admitted.hear (h : Admitted s) {signal : Signal} (hc : s.authentication.calls i = none)
    (hs : ∀ now token answer, signal = .authenticated now answer → s.waiting i = some (.authenticating token) →
      ∃ before ticket, before ++ [.answered i ticket token answer] <+: s.authentication.journal)
    (ht : s.hear app i signal = some t) : Admitted t := by
  obtain ⟨task, w, turn, hh, rfl⟩ := hear_cases ht
  constructor
  case called =>
    intro j call hj
    have hne : j ≠ i := by
      rintro rfl
      cases hc.symm.trans hj
    obtain ⟨other, ho, hp⟩ := h.called j call hj
    exact ⟨other, (withTurn_ne hne).trans ho, hp⟩
  case answered =>
    intro j other token answer hj hm
    rcases hh.get hj with ⟨rfl, rfl⟩ | ⟨-, hj⟩
    · rcases List.mem_append.mp hm with hm | hm
      · exact h.answered j task token answer hh.found hm
      · obtain ⟨now, he, rfl⟩ := turns_authenticate hh.turns hm
        exact hs now token answer he (waiting_of_phase hh.found hh.waits)
    · exact h.answered j other token answer hj hm

/-- Any signal but that of the authenticator, while it is not waited for. -/
theorem Admitted.hear_other (h : Admitted s) {signal : Signal} (hc : s.authentication.calls i = none)
    (hs : ∀ now answer, signal ≠ .authenticated now answer) (ht : s.hear app i signal = some t) : Admitted t :=
  h.hear hc (fun now _ answer he => absurd he (hs now answer)) ht

/-- A request that is told of its body, its pool, its executor or all pools does not wait
for the authenticator. -/
theorem hear_waits {signal : Signal} (hs : ∀ now answer, signal ≠ .authenticated now answer) (he : signal ≠ .elapse)
    (ha : signal ≠ .abandon) (ht : s.hear app i signal = some t) (token : String) : s.waiting i ≠ some (.authenticating token) := by
  obtain ⟨task, w, turn, hh, -⟩ := hear_cases ht
  rw [waiting_of_phase hh.found hh.waits]
  rintro ⟨⟩
  cases hh.turns with
  | rejected _ | limited _ | probed _ => exact hs _ _ rfl
  | elapsed _ => exact he rfl
  | abandoned _ => exact ha rfl

theorem Admitted.told (h : Admitted s) {signal : Signal} (hs : ∀ now answer, signal ≠ .authenticated now answer)
    (he : signal ≠ .elapse) (ha : signal ≠ .abandon) (ht : s.hear app i signal = some t) : Admitted t :=
  h.hear_other (h.calls_none (hear_waits hs he ha ht)) hs ht

private theorem Admitted.of_eq (h : Admitted s) (hg : t.gateway = s.gateway) (ha : t.authentication = s.authentication) : Admitted t := by
  obtain ⟨hc, hd⟩ := h
  rw [← hg, ← ha] at hc hd
  exact ⟨hc, hd⟩

private theorem Admitted.manage (h : Admitted s) {event : PoolManager.Event} (ht : s.manage app event = some t) : Admitted t := by
  obtain ⟨pools, -, rfl⟩ := Option.map_eq_some_iff.mp ht
  exact h.of_eq rfl rfl

private theorem Admitted.deliver (h : Admitted s) {j : Nat} (ht : s.deliver app i j = some t) : Admitted t := by
  rw [State.deliver] at ht
  split at ht
  · exact h.told (by simp) (by simp) (by simp) ht
  · exact h.told (by simp) (by simp) (by simp) ht
  · exact h.told (by simp) (by simp) (by simp) ht
  · cases ht
    exact h

/-- A call that ends or is dropped is no longer there, and nothing else changes. -/
theorem Admitted.without (h : Admitted s) {authentication : Authentication.State}
    (hcalls : authentication.calls = Function.update s.authentication.calls i none)
    (hjournal : s.authentication.journal <+: authentication.journal) :
    Admitted { s with authentication := authentication } := by
  constructor
  case called =>
    intro j call hj
    rw [hcalls, Function.update_apply] at hj
    split at hj
    · cases hj
    · exact h.called j call hj
  case answered =>
    intro j task token answer hj hm
    obtain ⟨before, ticket, hbefore⟩ := h.answered j task token answer hj hm
    exact ⟨before, ticket, hbefore.trans hjournal⟩

private theorem dropFuture_admitted (h : Admitted s) (ht : s.dropFuture app library i = some t) :
    Admitted t ∧ t.authentication.calls i = none := by
  have hnone (hw : ∀ token, s.waiting i ≠ some (.authenticating token)) {event : PoolManager.Event}
      (ht : s.manage app event = some t) : Admitted t ∧ t.authentication.calls i = none := by
    refine ⟨h.manage ht, ?_⟩
    obtain ⟨pools, -, rfl⟩ := Option.map_eq_some_iff.mp ht
    exact h.calls_none hw
  rw [State.dropFuture] at ht
  split at ht
  · obtain ⟨authentication, ha, rfl⟩ := Option.map_eq_some_iff.mp ht
    obtain ⟨hcalls, -, -⟩ := Authentication.abandon_calls ha
    refine ⟨h.without hcalls (Authentication.journal_step ha), ?_⟩
    rw [hcalls, Function.update_self]
  · rename_i hw
    obtain ⟨j, -, ht⟩ := Option.bind_eq_some_iff.mp ht
    exact hnone (by simp [hw]) ht
  · rename_i hw
    obtain ⟨j, -, ht⟩ := Option.bind_eq_some_iff.mp ht
    exact hnone (by simp [hw]) ht
  · rename_i hw _ _
    cases ht
    exact ⟨h, h.calls_none hw⟩

theorem arrived_waiting (s : State) (inbound : Inbound) :
    (arrived app s inbound).gateway.tasks[s.gateway.tasks.length]? =
      some ⟨inbound, (enter app s.gateway.available inbound).1, .default, [], [],
        (enter app s.gateway.available inbound).1.keeps (taken s.gateway.available inbound)⟩ :=
  List.getElem?_concat_length

private theorem Admitted.arrived (h : Admitted s) (inbound : Inbound) : Admitted (arrived app s inbound) := by
  constructor
  case called =>
    intro j call hj
    obtain ⟨task, ht, hp⟩ := h.called j call hj
    exact ⟨task, (List.getElem?_append_left (List.getElem?_eq_some_iff.mp ht).1).trans ht, hp⟩
  case answered =>
    intro j task token answer hj hm
    by_cases hlt : j < s.gateway.tasks.length
    · have hj : s.gateway.tasks[j]? = some task := (List.getElem?_append_left hlt).symm.trans hj
      exact h.answered j task token answer hj hm
    · have hmem := List.mem_of_getElem? (Eq.trans (List.getElem?_append_right (not_lt.mp hlt)).symm hj)
      rw [List.mem_singleton.mp hmem] at hm
      cases hm

private theorem Steps.admitted {e : Event} (h : Admitted s) (hs : Steps app library s e t) : Admitted t := by
  cases hs with
  | arrived inbound _ => exact h.arrived inbound
  | @started inbound token _ hw ht =>
    obtain ⟨authentication, ha, rfl⟩ := Option.map_eq_some_iff.mp ht
    obtain ⟨hcalls, -, hjournal⟩ := Authentication.start_calls ha
    have harrived : Admitted (Server.arrived app s inbound) := h.arrived inbound
    constructor
    case called =>
      intro j call hj
      rw [hcalls, Function.update_apply] at hj
      split at hj
      · rename_i heq
        subst heq
        cases hj
        exact phase_of_waiting hw
      · exact harrived.called j call hj
    case answered =>
      rw [hjournal]
      exact harrived.answered
  | authenticate he ht => exact h.authenticate he ht
  | @authenticated i now ticket bearer result _ _ hc hu ht =>
    obtain ⟨authentication, ha, rfl⟩ := Option.map_eq_some_iff.mp hu
    obtain ⟨hcalls, -, hjournal⟩ := Authentication.finish_calls hc ha
    obtain ⟨task, hi, hp⟩ := h.called i _ hc
    apply (h.without hcalls (Authentication.journal_step ha)).hear _ _ ht
    · rw [hcalls, Function.update_self]
    · rintro now token answer ⟨⟩ hw
      cases (waiting_of_phase hi hp).symm.trans hw
      exact ⟨s.authentication.journal, ticket, by rw [hjournal]⟩
  | read ht _ => exact h.told (by simp) (by simp) (by simp) ht
  | refused hu _ _ ht => exact (h.told (by simp) (by simp) (by simp) hu).told (by simp) (by simp) (by simp) ht
  | acquiring hu _ _ ht => exact ((h.told (by simp) (by simp) (by simp) hu).manage ht).of_eq rfl rfl
  | pool _ _ hu ht => exact (h.manage hu).deliver ht
  | returned _ _ _ ht => exact (h.manage ht).of_eq rfl rfl
  | elapsed hu ht =>
    obtain ⟨hdropped, hnone⟩ := dropFuture_admitted h hu
    exact hdropped.hear_other hnone (by simp) ht
  | abandoned hu ht =>
    obtain ⟨hdropped, hnone⟩ := dropFuture_admitted h hu
    exact hdropped.hear_other hnone (by simp) ht
  | checked ht => exact h.told (by simp) (by simp) (by simp) ht
  | maintained _ ht => exact h.manage ht
  | swept now => exact ⟨h.called, h.answered⟩

theorem admitted_run {events : List Event} (h : (machine app library).run (start app) events = some s) : Admitted s := by
  apply Machine.run_invariant (fun _ _ _ hi hs => (steps_of_step hs).admitted hi) h
  constructor
  case called => rintro i call ⟨⟩
  case answered => rintro i task token answer ⟨⟩

end Authentication
end Srh.Server
