import Srh.Adapters.Acceptance
import Srh.Adapters.AuthChain
import Srh.ConfigEnvironment
import Srh.Http.GatewayAudit
import Srh.ServerPools

/-! What the components of the server give together, in every interleaving of any number
of requests. -/
namespace Srh.Server
open Srh.Lib Srh.Domain Srh.Ports Srh.Http Srh.Http.Gateway Srh.Adapters Extractors

section Joined
variable {Key : Type} {app : AppState} {library : Jwt.Library Key} {s : State}

structure Sound (app : AppState) (library : Jwt.Library Key) (s : State) : Prop where
  coherent : Coherent app s.gateway
  authentication : Authentication.Sound library app.cfg s.authentication
  admitted : Admitted s
  leasing : Leasing s
  leased : PoolManager.Throughout (fun _ => PoolManager.Leased) s.pools
  configured : PoolManager.Configured app.cfg.pools s.pools

private theorem server_sound {events : List Event} (h : (machine app library).run (start app) events = some s) : Sound app library s := by
  obtain ⟨⟨_, hgateway⟩, ⟨_, hauthentication⟩, ⟨_, hpools⟩⟩ := run_advances h
  exact ⟨coherent_run hgateway, Authentication.authentication_sound hauthentication, admitted_run h, leasing_run h,
    PoolManager.leased_invariant.run hpools, PoolManager.configured_run hpools⟩

/-- Whoever a request was let in as is trusted, by what was known at the time. -/
theorem trusted_of_deed (ha : Authentication.Sound library app.cfg s.authentication) (h : Admitted s) {i : Nat} {task : Task}
    {token : String} {identity : Identity} (hi : s.gateway.tasks[i]? = some task)
    (hm : .authenticate token (.ok (some identity)) ∈ task.deeds) :
    ∃ before ticket, before ++ [.answered i ticket token (.ok (some identity))] <+: s.authentication.journal ∧
      Authentication.Trusted library app.cfg before ticket token identity := by
  obtain ⟨before, ticket, hbefore⟩ := h.answered i task token _ hi hm
  exact ⟨before, ticket, hbefore, ha.accepted hbefore⟩

/-- A request that waits for Redis carries a trusted credential of its identity. -/
theorem trusted_of_calling (h : Sound app library s) {i : Nat} {task : Task} {request : Request} {work : Work}
    (hi : s.gateway.tasks[i]? = some task) (hw : task.phase = .waiting (.calling request work)) :
    ∃ token before ticket, bearer task.inbound.authorization = some token ∧
      Authentication.Trusted library app.cfg before ticket token request.identity := by
  have ht := h.coherent.traced i task hi
  obtain ⟨inbound, phase, audit, heard, deeds, held⟩ := task
  cases hw
  have hr : Reached app s.gateway.calls i inbound (.calling request work) heard audit deeds := ht
  cases hr with
  | @calling endpoint token identity _ _ _ _ _ _ hcarries hrequest _ _ =>
    have hm : ∀ commandCount operation, Deed.authenticate token (.ok (some identity)) ∈
        Gateway.calling token identity commandCount operation := by
      simp [Gateway.calling, charging, admission]
    obtain ⟨before, ticket, -, htrusted⟩ := trusted_of_deed h.authentication h.admitted hi (hm _ _)
    refine ⟨token, before, ticket, hcarries.bearer, ?_⟩
    rw [hrequest]
    exact htrusted

/-- A request that waits for Redis has a task on an entry of its pool, which is as
configured. -/
theorem entry_of_calling (h : Sound app library s) {i : Nat} {task : Task} {request : Request} {work : Work}
    (hi : s.gateway.tasks[i]? = some task) (hw : task.phase = .waiting (.calling request work)) :
    ∃ j own entry client, s.leases i = some j ∧ s.pools.tasks[j]? = some own ∧ .client client ∈ own.stage.held ∧
      s.pools.entries[own.entry]? = some entry ∧ entry.name = request.identity.pool ∧
      app.cfg.pools.get request.identity.pool = some entry.config := by
  obtain ⟨_, ⟨j, own, entry, hj, hown, rfl, he, hn⟩, hs⟩ := h.leasing.placed i _ (waiting_of_phase hi hw)
  obtain ⟨client, hlast⟩ := hs.client
  have hconfig := h.configured entry (List.mem_of_getElem? he)
  rw [hn] at hconfig
  exact ⟨j, own, entry, client, hj, hown, List.mem_of_getLast? hlast, he, hn, hconfig⟩

end Joined

section Answers
variable {Key : Type} {app : AppState} {library : Jwt.Library Key} {s t : State} {i : Nat}

private theorem status_of_handled {error : AppError} (h : Handled True error) : (Answer.failure error).status ≠ 500 := by
  cases error with
  | internal message => exact absurd trivial h
  | _ => simp [Answer.status, AppError.intoResponse]

private theorem status_ofResult {result : Except AppError Response} (h : Fails (Handled True) result) :
    (Answer.ofResult result).status ≠ 500 := by
  cases result with
  | ok response => simp [Answer.ofResult, Answer.status]
  | error error => exact status_of_handled (h error rfl)

private theorem status_identified {answer : Except AuthError (Option Identity)} {error : AppError} {kind : AuthFailure}
    (h : identified answer = .error (error, kind)) : (Answer.failure error).status ≠ 500 := by
  rcases answer with (_ | reason | reason) | (_ | identity)
  all_goals
    cases h
    try simp [Answer.status, AppError.intoResponse]

/-- No turn ends in an internal error, as long as leases are refused for load only and
executors answer every command. -/
theorem turns_answer {limiter : RateLimit.State String} {task : Task} {signal : Signal} {w : Waiting} {turn : Turn} {answer : Answer}
    (h : Turns app limiter task signal w turn) (haligned : ∀ request work, w = .calling request work → work.Aligned)
    (hrefused : ∀ error, signal = .acquired (.error error) → Shedding error)
    (hjoined : ∀ executor request work, signal = .called executor → w = .calling request work → joined executor work.operation)
    (hp : turn.phase = .answered answer) : answer.status ≠ 500 := by
  cases h with
  | checked pools =>
    cases hp
    rw [Answer.status, Health.status]
    split <;> decide
  | rejected hi =>
    cases hp
    exact status_identified hi
  | limited _ | overcharged _ _ _ _ _ =>
    cases hp
    simp [Answer.status, AppError.intoResponse]
  | unread _ hb =>
    cases hp
    exact status_of_handled (readBody_handled _ hb)
  | @answered request received upload now endpoint body p result _ _ _ hplan _ hnext =>
    cases hp
    have hguarded : (plan app received body endpoint).next.Guarded True := plan_guarded endpoint body
    rw [hplan] at hguarded
    exact status_ofResult (hguarded.fails result hnext)
  | unleased error =>
    cases hp
    exact status_of_handled (handled_mapAcquireError fun _ => hrefused error rfl)
  | @finished request work executor =>
    cases hp
    apply status_ofResult
    apply finish_handled
    intro _
    exact ⟨haligned request work rfl, joined_iff.mp (hjoined executor request work rfl rfl)⟩
  | elapsed _ =>
    cases hp
    simp [overloaded, Answer.status, AppError.intoResponse]
  | probed _ | planned _ _ _ _ _ _ | leased | abandoned _ => cases hp

private theorem enters_answer {available : Nat} {inbound : Inbound} {phase : Phase} {counted : List Counter} {answer : Answer}
    (h : Enters app available inbound phase counted) (hp : phase = .answered answer) : answer.status ≠ 500 := by
  cases h with
  | checking => cases hp
  | authenticating _ _ _ => cases hp
  | _ =>
    cases hp
    simp [overloaded, Answer.status, AppError.intoResponse]

/-- The work of a request that waits for Redis is that of its plan. -/
theorem aligned_of_coherent (h : Coherent app s.gateway) {task : Task} {request : Request} {work : Work}
    (hi : s.gateway.tasks[i]? = some task) (hw : task.phase = .waiting (.calling request work)) : work.Aligned := by
  have ht := h.traced i task hi
  obtain ⟨inbound, phase, audit, heard, deeds, held⟩ := task
  cases hw
  have hr : Reached app s.gateway.calls i inbound (.calling request work) heard audit deeds := ht
  cases hr with
  | @calling endpoint _ _ _ _ _ _ _ _ _ _ hg hnext =>
    obtain ⟨body, -, rfl⟩ := hg.read
    have hguarded : (plan app request body endpoint).next.Guarded True := plan_guarded endpoint body
    exact hguarded.work work hnext

def Settled (s : State) : Prop :=
  ∀ (i : Nat) (task : Task) answer, s.gateway.tasks[i]? = some task → task.phase = .answered answer → answer.status ≠ 500

private theorem Settled.hear (h : Settled s) (hc : Coherent app s.gateway) {signal : Signal}
    (hrefused : ∀ error, signal = .acquired (.error error) → Shedding error)
    (hjoined : ∀ executor request work, signal = .called executor → s.waiting i = some (.calling request work) →
      joined executor work.operation) (ht : s.hear app i signal = some t) : Settled t := by
  obtain ⟨task, w, turn, hh, rfl⟩ := hear_cases ht
  have hwaits := waiting_of_phase hh.found hh.waits
  intro j other answer hj hp
  rcases hh.get hj with ⟨rfl, rfl⟩ | ⟨-, hj⟩
  · apply turns_answer hh.turns _ hrefused _ hp
    · rintro request work rfl
      exact aligned_of_coherent hc hh.found hh.waits
    · rintro executor request work he rfl
      exact hjoined executor request work he hwaits
  · exact h j other answer hj hp

private theorem Settled.told (h : Settled s) (hc : Coherent app s.gateway) {signal : Signal} (hacquired : ∀ answer, signal ≠ .acquired answer)
    (hcalled : ∀ executor, signal ≠ .called executor) (ht : s.hear app i signal = some t) : Settled t :=
  h.hear hc (fun _ he => absurd he (hacquired _)) (fun _ _ _ he => absurd he (hcalled _)) ht

private theorem Settled.of_eq (h : Settled s) (hg : t.gateway = s.gateway) : Settled t := by
  rw [Settled, hg]
  exact h

private theorem authenticate_gateway {event : Authentication.Event} (ht : s.authenticate app library event = some t) :
    t.gateway = s.gateway := by
  obtain ⟨authentication, -, rfl⟩ := Option.map_eq_some_iff.mp ht
  rfl

private theorem Settled.authenticate (h : Settled s) {event : Authentication.Event} (ht : s.authenticate app library event = some t) :
    Settled t :=
  h.of_eq (authenticate_gateway ht)

private theorem Settled.arrived (h : Settled s) (inbound : Inbound) : Settled (Server.arrived app s inbound) := by
  intro j task answer hj hp
  by_cases hlt : j < s.gateway.tasks.length
  · exact h j task answer ((List.getElem?_append_left hlt).symm.trans hj) hp
  · have hmem := List.mem_of_getElem? (Eq.trans (List.getElem?_append_right (not_lt.mp hlt)).symm hj)
    rw [List.mem_singleton.mp hmem] at hp
    exact enters_answer (enters_enter app s.gateway.available inbound) hp

theorem dropFuture_gateway (h : s.dropFuture app library i = some t) : t.gateway = s.gateway := by
  rw [State.dropFuture] at h
  split at h
  · exact authenticate_gateway h
  · obtain ⟨j, -, h⟩ := Option.bind_eq_some_iff.mp h
    exact (manage_rest h).1
  · obtain ⟨j, -, h⟩ := Option.bind_eq_some_iff.mp h
    exact (manage_rest h).1
  · cases h
    rfl

/-- The pool of a request that wants a lease is configured. -/
theorem pool_known {parsers : Parsers} (hvalid : app.cfg.validate parsers = .ok ())
    (ha : Authentication.Sound library app.cfg s.authentication) (h : Admitted s) (hc : Coherent app s.gateway) {request : Request}
    {work : Work} (hw : s.waiting i = some (.acquiring request work)) : ∃ pool, app.cfg.pools.get request.identity.pool = some pool := by
  obtain ⟨task, hi, hp⟩ := phase_of_waiting hw
  have ht := hc.traced i task hi
  obtain ⟨inbound, phase, audit, heard, deeds, held⟩ := task
  cases hp
  have hr : Reached app s.gateway.calls i inbound (.acquiring request work) heard audit deeds := ht
  cases hr with
  | @acquiring endpoint token identity _ _ _ _ _ _ _ hrequest _ _ =>
    have hm : ∀ commandCount, Deed.authenticate token (.ok (some identity)) ∈ charging token identity commandCount := by
      simp [charging, admission]
    obtain ⟨before, ticket, -, htrusted⟩ := trusted_of_deed ha h hi (hm _)
    rw [hrequest]
    exact htrusted.pool hvalid

/-- Redis clients can be built for every pool. -/
def Event.Builds : Event → Prop
  | .read _ _ _ buildError => buildError = none
  | _ => True

private theorem Steps.settled {parsers : Parsers} (hvalid : app.cfg.validate parsers = .ok ()) {e : Event} (hsound : Sound app library s)
    (h : Settled s) (he : e.Builds) (hs : Steps app library s e t) : Settled t := by
  have hc := hsound.coherent
  cases hs with
  | arrived inbound _ => exact h.arrived inbound
  | @started inbound _ _ _ ht => exact (h.arrived inbound).authenticate ht
  | authenticate _ ht => exact h.authenticate ht
  | authenticated _ hu ht => exact (h.authenticate hu).told ((authenticate_gateway hu).symm ▸ hc) (by simp) (by simp) ht
  | read ht _ => exact h.told hc (by simp) (by simp) ht
  | @refused i now upload buildError request work error u _ hu hw hb ht =>
    -- there is no such refusal: the pool is known, and it can be built
    have hadmitted : Admitted u := hsound.admitted.told (by simp) (by simp) (by simp) hu
    obtain ⟨gateway, hg, rfl⟩ := Option.map_eq_some_iff.mp hu
    obtain ⟨pool, hpool⟩ := pool_known (s := { s with gateway := gateway }) hvalid hsound.authentication hadmitted
      (coherent_step hc hg) hw
    rw [PoolManager.getOrBuild, hpool, show buildError = none from he] at hb
    dsimp only at hb
    split at hb <;> cases hb
  | acquiring hu _ _ ht =>
    exact Settled.of_eq (Settled.told h hc (by simp) (by simp) hu) (manage_rest ht).1
  | pool ha hj hu ht =>
    have hg := (manage_rest hu).1
    have hsettled : Settled _ := h.of_eq hg
    have hcoherent : Coherent app _ := hg.symm ▸ hc
    cases delivers_of_deliver ht with
    | leased _ _ ht => exact hsettled.hear hcoherent (by simp) (by simp) ht
    | refused hw hstage ht =>
      apply hsettled.hear hcoherent _ (by simp) ht
      rintro _ ⟨⟩
      obtain ⟨stage, -, hs, hseeking | ⟨p, client, rfl⟩ | ⟨e, rfl, hshedding⟩⟩ := hsound.leasing.seeking ha hj hu hw
      · cases hstage.symm.trans hs
        exact absurd rfl hseeking.1
      · cases hstage.symm.trans hs
      · cases hstage.symm.trans hs
        exact hshedding
    | called hw hstage hresult ht =>
      apply hsettled.hear hcoherent (by simp) _ ht
      rintro _ request work ⟨⟩ hwaits
      obtain ⟨stage, -, hs, hserving | ⟨rfl, executor, he, hjoined⟩⟩ := hsound.leasing.serving ha hj hu hwaits
      · cases hstage.symm.trans hs
        obtain ⟨-, ⟨client, hlast⟩, -⟩ := hserving
        cases hlast
      · cases hresult.symm.trans he
        exact hjoined
    | silent _ _ _ => exact hsettled
  | returned _ _ _ ht => exact h.of_eq (manage_rest ht).1
  | elapsed hu ht =>
    exact Settled.told (h.of_eq (dropFuture_gateway hu)) ((dropFuture_gateway hu).symm ▸ hc) (by simp) (by simp) ht
  | abandoned hu ht =>
    exact Settled.told (h.of_eq (dropFuture_gateway hu)) ((dropFuture_gateway hu).symm ▸ hc) (by simp) (by simp) ht
  | checked ht => exact h.told hc (by simp) (by simp) ht
  | maintained _ ht => exact h.of_eq (manage_rest ht).1
  | swept now => exact h

end Answers

section Sample

def untilCalled : List Event :=
  [.arrive sampleInbound, .authenticated 0 1, .read 0 2 (.complete []) none, .pool 0 .tryAdmit, .pool 0 .enqueue,
    .pool 0 .grant, .pool 0 .unwait, .pool 0 .countInUse, .pool 0 .acquireClient]

theorem untilCalled_calls : ∃ s task request work,
    (machine sampleServer sampleLibrary).run (start sampleServer) untilCalled = some s ∧ s.gateway.tasks[0]? = some task ∧
      task.phase = .waiting (.calling request work) ∧ .call sampleOperation ∈ task.deeds := by
  have h : (((machine sampleServer sampleLibrary).run (start sampleServer) untilCalled).bind fun s => s.gateway.tasks[0]?).map
      (fun task => (task.phase.waiting?.any fun w => !w.lease.isEmpty) &&
        task.deeds.any fun deed => deed.effect? = some (.call sampleOperation)) = some true := by
    decide +kernel
  obtain ⟨task, htask, h⟩ := Option.map_eq_some_iff.mp h
  obtain ⟨s, hrun, htask⟩ := Option.bind_eq_some_iff.mp htask
  rw [Bool.and_eq_true, Option.any_eq_true] at h
  obtain ⟨⟨w, hw, hlease⟩, hcall⟩ := h
  -- only a request that waits for Redis has a lease to release
  cases w with
  | calling request work => exact ⟨s, task, request, work, hrun, htask, waiting_of_waiting? hw, mem_of_any_call hcall⟩
  | _ => cases hlease

end Sample

section Theorems
variable {Key : Type} (app : AppState) (library : Jwt.Library Key) (events : List Event) (s : State)

/-- Redis is called only on behalf of a credential that the authenticator accepted in the
request's own call, trusted by what it had learned when it did; the pool of its identity was leased, and every command
passes the policy of that identity. -/
theorem redis_calls_trusted (hrun : (machine app library).run (start app) events = some s) (i : Nat) (task : Task)
    (hi : s.gateway.tasks[i]? = some task) (operation : Operation) (hc : .call operation ∈ task.deeds) :
    ∃ token identity before ticket, bearer task.inbound.authorization = some token ∧
      before ++ [.answered i ticket token (.ok (some identity))] <+: s.authentication.journal ∧
      Authentication.Trusted library app.cfg before ticket token identity ∧
      .acquire identity.pool (.ok ()) ∈ task.deeds ∧ ∀ sent ∈ operation.commands, Acl.check app.sha256 identity sent = .ok () := by
  have hsound := server_sound hrun
  obtain ⟨endpoint, token, identity, commandCount, h⟩ := (hsound.coherent.traced i task hi).called hc
  obtain ⟨request, body, p, work, rfl, rfl, rfl, he⟩ := h.entitled
  have hmem : ∀ deed ∈ calling token request.identity p.commandCount work.operation, deed ∈ task.deeds := by
    intro deed hm
    rcases h.deeds with hd | hd
    · rwa [hd]
    · rw [hd]
      exact List.mem_append_left _ hm
  have hauthenticated := hmem (.authenticate token (.ok (some request.identity))) (by simp [calling, charging, admission])
  obtain ⟨before, ticket, hbefore, htrusted⟩ := trusted_of_deed hsound.authentication hsound.admitted hi hauthenticated
  exact ⟨token, request.identity, before, ticket, h.carries.bearer, hbefore, htrusted,
    hmem (.acquire request.identity.pool (.ok ())) (by simp [calling]), he.checked⟩

theorem redis_calls_trusted_sample : ∃ s token identity before ticket,
    (machine sampleServer sampleLibrary).run (start sampleServer) untilCalled = some s ∧
      before ++ [.answered 0 ticket token (.ok (some identity))] <+: s.authentication.journal ∧
      Authentication.Trusted sampleLibrary sampleServer.cfg before ticket token identity := by
  obtain ⟨s, task, request, work, hrun, hi, -, hc⟩ := untilCalled_calls
  obtain ⟨token, identity, before, ticket, -, hbefore, htrusted, -⟩ :=
    redis_calls_trusted sampleServer sampleLibrary untilCalled s hrun 0 task hi sampleOperation hc
  exact ⟨s, token, identity, before, ticket, hrun, hbefore, htrusted⟩

/-- A request that waits for Redis holds a client of a pool with the settings that are
configured for its identity, and no other task of the pool manager holds that client,
whether its request still waits or not. -/
theorem clients_exclusive (hrun : (machine app library).run (start app) events = some s) (i : Nat) (task : Task)
    (hi : s.gateway.tasks[i]? = some task) (request : Request) (work : Work) (hw : task.phase = .waiting (.calling request work)) :
    ∃ j own entry client, s.leases i = some j ∧ s.pools.tasks[j]? = some own ∧ .client client ∈ own.stage.held ∧
      s.pools.entries[own.entry]? = some entry ∧ app.cfg.pools.get request.identity.pool = some entry.config ∧
      ∀ (k : Nat) (other : PoolManager.Task), k ≠ j → s.pools.tasks[k]? = some other → other.entry = own.entry →
        .client client ∉ other.stage.held := by
  have hsound := server_sound hrun
  obtain ⟨j, own, entry, client, hj, hown, hheld, he, -, hconfig⟩ := entry_of_calling hsound hi hw
  refine ⟨j, own, entry, client, hj, hown, hheld, he, hconfig, ?_⟩
  intro k other hk hother hentry
  exact (hsound.leased.2 own.entry entry he).exclusive hown hother (Ne.symm hk) hentry hheld

theorem clients_exclusive_sample : ∃ s j own client,
    (machine sampleServer sampleLibrary).run (start sampleServer) untilCalled = some s ∧ s.leases 0 = some j ∧
      s.pools.tasks[j]? = some own ∧ .client client ∈ own.stage.held := by
  obtain ⟨s, task, request, work, hrun, hi, hw, -⟩ := untilCalled_calls
  obtain ⟨j, own, entry, client, hj, hown, hheld, -⟩ :=
    clients_exclusive sampleServer sampleLibrary untilCalled s hrun 0 task hi request work hw
  exact ⟨s, j, own, client, hrun, hj, hown, hheld⟩

/-- In environment mode there is one tenant: whoever gets to Redis has shown a credential
with the digest of SRH_TOKEN, and gets to the Redis of SRH_CONNECTION_STRING. -/
theorem env_mode_serves_one_token (parsers : Parsers) (iteration : Iteration) (env : Environment)
    (hmode : env.get "SRH_MODE" = some "env")
    (hconfig : Config.fromEnvironment library.sha256 parsers iteration env = .ok app.cfg)
    (hrun : (machine app library).run (start app) events = some s) (i : Nat) (task : Task) (hi : s.gateway.tasks[i]? = some task)
    (request : Request) (work : Work) (hw : task.phase = .waiting (.calling request work)) :
    ∃ secret token j own entry, env.get "SRH_TOKEN" = some secret ∧ bearer task.inbound.authorization = some token ∧
      digestToken library.sha256 token = digestToken library.sha256 secret ∧ s.leases i = some j ∧
      s.pools.tasks[j]? = some own ∧ s.pools.entries[own.entry]? = some entry ∧
      env.get "SRH_CONNECTION_STRING" = some entry.config.connectionString := by
  have hsound := server_sound hrun
  obtain ⟨secret, connectionString, maxConnections, hsecret, hconnection, -, hauth, hpools⟩ := fromEnvironment_env hmode hconfig
  obtain ⟨token, before, ticket, hbearer, htrusted⟩ := trusted_of_calling hsound hi hw
  obtain ⟨j, own, entry, client, hj, hown, -, he, -, hpool⟩ := entry_of_calling hsound hi hw
  generalize request.identity = identity at htrusted
  cases htrusted with
  | verified hjwt =>
    rw [hauth] at hjwt
    cases hjwt
  | configured hstatic =>
    rw [hauth] at hstatic
    rcases FiniteMap.get_insert_some.mp hstatic with ⟨hdigest, -⟩ | ⟨-, hnone⟩
    · rw [hpools] at hpool
      rcases FiniteMap.get_insert_some.mp hpool with ⟨-, hentry⟩ | ⟨-, hnone⟩
      · refine ⟨secret, token, j, own, entry, hsecret, hbearer, hdigest, hj, hown, he, ?_⟩
        rw [hconnection, hentry]
        rfl
      · cases hnone
    · cases hnone

def sampleEnvironment : Environment where
  get
    | "SRH_MODE" => some "env"
    | "SRH_TOKEN" => some "secret"
    | "SRH_CONNECTION_STRING" => some "redis://localhost:6379"
    | _ => none
  read _ := .error "No such file or directory (os error 2)"

theorem env_mode_serves_one_token_sample : ∃ s j own entry,
    (machine sampleServer sampleLibrary).run (start sampleServer) untilCalled = some s ∧ s.leases 0 = some j ∧
      s.pools.tasks[j]? = some own ∧ s.pools.entries[own.entry]? = some entry ∧
      sampleEnvironment.get "SRH_CONNECTION_STRING" = some entry.config.connectionString := by
  obtain ⟨s, task, request, work, hrun, hi, hw, -⟩ := untilCalled_calls
  obtain ⟨secret, token, j, own, entry, -, -, -, hj, hown, he, hconnection⟩ :=
    env_mode_serves_one_token sampleServer sampleLibrary untilCalled s lenient inOrder sampleEnvironment rfl rfl hrun 0
      task hi request work hw
  exact ⟨s, j, own, entry, hrun, hj, hown, he, hconnection⟩

/-- A server whose configuration is accepted and that can build its Redis clients answers
no request with an internal error. -/
theorem no_internal_errors (parsers : Parsers) (hvalid : app.cfg.validate parsers = .ok ())
    (hrun : (machine app library).run (start app) events = some s) (hbuilds : ∀ e ∈ events, e.Builds) (i : Nat) (task : Task)
    (answer : Answer) (hi : s.gateway.tasks[i]? = some task) (hp : task.phase = .answered answer) : answer.status ≠ 500 := by
  have hsettled : (machine app library).Reaches (start app) s ∧ Settled s := by
    apply (Machine.along_of_mem _ hbuilds).invariant (I := fun s => (machine app library).Reaches (start app) s ∧ Settled s) _ hrun
    · refine ⟨.refl _, ?_⟩
      rintro i task answer ⟨⟩
    · rintro u e t ⟨⟨before, hu⟩, hsettled⟩ he ht
      exact ⟨Machine.Reaches.trans ⟨before, hu⟩ (Machine.reaches_step ht),
        (steps_of_step ht).settled hvalid (server_sound hu) hsettled he⟩
  exact hsettled.2 i task answer hi hp

def untilAnswered : List Event :=
  untilCalled ++ [.returned 0 { sampleExecutor with pipeline := fun commands => commands.map fun _ => .ok .nil },
    .pool 0 .finish, .pool 0 .drop, .pool 0 .drop, .pool 0 .drop, .pool 0 .drop]

theorem no_internal_errors_sample : ∃ s task answer,
    (machine sampleServer sampleLibrary).run (start sampleServer) untilAnswered = some s ∧ s.gateway.tasks[0]? = some task ∧
      task.phase = .answered answer ∧ answer.status ≠ 500 := by
  have h : (((machine sampleServer sampleLibrary).run (start sampleServer) untilAnswered).bind fun s => s.gateway.tasks[0]?).map
      (fun task => task.phase.answer?.isSome) = some true := by
    decide +kernel
  obtain ⟨task, htask, h⟩ := Option.map_eq_some_iff.mp h
  obtain ⟨s, hrun, hi⟩ := Option.bind_eq_some_iff.mp htask
  have hbuilds : ∀ e ∈ untilAnswered, e.Builds := by simp [untilAnswered, untilCalled, Event.Builds]
  cases hp : task.phase with
  | answered answer =>
    exact ⟨s, task, answer, hrun, hi, hp,
      no_internal_errors sampleServer sampleLibrary untilAnswered s lenient rfl hrun hbuilds 0 task answer hi hp⟩
  | _ =>
    rw [hp] at h
    cases h

end Theorems
end Srh.Server
