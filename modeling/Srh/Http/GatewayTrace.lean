import Srh.Http.GatewayLimits

/-! What every request has done at every moment of every interleaving, whether it
waits, was answered, ran out of time or lost its client. -/
namespace Srh.Http.Gateway
open Srh.Lib Srh.Domain Srh.Ports Extractors

def told (identity : Identity) (inbound : Inbound) (heard : List Signal) : Request :=
  heard.foldl hear (admitted identity inbound)

@[simp] theorem hear_identity (request : Request) (signal : Signal) : (hear request signal).identity = request.identity := by
  cases signal <;> rfl

@[simp] theorem hear_encodingHeader (request : Request) (signal : Signal) :
    (hear request signal).encodingHeader = request.encodingHeader := by
  cases signal <;> rfl

def chargeCalls (state : AppState) (i : Nat) (request : Request) (commandCount : Nat) (limiter : RateLimit.State String) :
    List Owned :=
  (accessCalls (charged state request limiter commandCount)
    ⟨request.now, .charge request.identity.bucketKey commandCount⟩).map fun call => (some i, call)

/-- The limiter made the charge of a request in the given state, the linearisation point
of the request. -/
def ChargedAt (state : AppState) (calls : List Owned) (i : Nat) (request : Request) (commandCount : Nat)
    (limiter : RateLimit.State String) : Prop :=
  ∃ before, before ++ chargeCalls state i request commandCount limiter <+: calls ∧
    RateLimit.run state.rateLimiter (timed before) = limiter

structure Granted (state : AppState) (calls : List Owned) (i : Nat) (request : Request) (endpoint : Endpoint) (p : Plan) : Prop where
  read : ∃ body, readBody state request = .ok body ∧ plan state request body endpoint = p
  charged : ∃ limiter, ChargedAt state calls i request p.commandCount limiter ∧
    (charged state request limiter p.commandCount).1 = .ok ()

structure Carries (inbound : Inbound) (endpoint : Endpoint) (token : String) : Prop where
  route : route inbound.path = .api endpoint
  bearer : bearer inbound.authorization = some token

/-- The deeds of a request that its identity and its bucket let in. -/
def admission (token : String) (identity : Identity) : List Deed :=
  [.authenticate token (.ok (some identity)), .probe identity.bucketKey (.ok ())]

def charging (token : String) (identity : Identity) (commandCount : Nat) : List Deed :=
  admission token identity ++ [.charge identity.bucketKey commandCount (.ok ())]

/-- The deeds of a request that has its lease and has called Redis. -/
def calling (token : String) (identity : Identity) (commandCount : Nat) (operation : Operation) : List Deed :=
  charging token identity commandCount ++ [.acquire identity.pool (.ok ()), .call operation]

section Histories
variable (state : AppState) (calls : List Owned) (i : Nat) (inbound : Inbound)

/-- What a waiting task has heard, told the audit and done. -/
inductive Reached : Waiting → List Signal → Audit → List Deed → Prop where
  | checking (hroute : route inbound.path = .ready) (hlocal : inbound.loopback = true) : Reached .checking [] .default []
  | authenticating {endpoint : Endpoint} {token : String} (h : Carries inbound endpoint token) :
      Reached (.authenticating token) [] .default []
  | reading {endpoint : Endpoint} {token : String} {identity : Identity} {t : Nat} (h : Carries inbound endpoint token) :
      Reached (.reading (admitted identity inbound)) [.authenticated t (.ok (some identity))]
        (Audit.default.setIdentity identity) (admission token identity)
  | acquiring {endpoint : Endpoint} {token : String} {identity : Identity} {t now : Nat} {upload : Upload} {request : Request}
      {p : Plan} {work : Work} (h : Carries inbound endpoint token)
      (hr : request = told identity inbound [.authenticated t (.ok (some identity)), .read now upload])
      (hg : Granted state calls i request endpoint p) (hw : p.next = .work work) :
      Reached (.acquiring request work) [.authenticated t (.ok (some identity)), .read now upload]
        (audited (Audit.default.setIdentity identity) p.label) (charging token identity p.commandCount)
  | calling {endpoint : Endpoint} {token : String} {identity : Identity} {t now : Nat} {upload : Upload} {request : Request}
      {p : Plan} {work : Work} (h : Carries inbound endpoint token)
      (hr : request = told identity inbound [.authenticated t (.ok (some identity)), .read now upload, .acquired (.ok ())])
      (hg : Granted state calls i request endpoint p) (hw : p.next = .work work) :
      Reached (.calling request work) [.authenticated t (.ok (some identity)), .read now upload, .acquired (.ok ())]
        (audited (Audit.default.setIdentity identity) p.label) (calling token identity p.commandCount work.operation)

inductive Finished : Phase → List Signal → Audit → List Deed → Prop where
  | entered {answer : Answer} (available : Nat) {counted : List Counter}
      (h : Enters state available inbound (.answered answer) counted) : Finished (.answered answer) [] .default []
  | checked (pools : List PoolReadiness) (hroute : route inbound.path = .ready) (hlocal : inbound.loopback = true) :
      Finished (.answered (.readiness pools)) [.checked pools] .default []
  | rejected {endpoint : Endpoint} {token : String} {t : Nat} {answer : Except AuthError (Option Identity)} {error : AppError}
      {kind : AuthFailure} (h : Carries inbound endpoint token) (hi : identified answer = .error (error, kind)) :
      Finished (.answered (.failure error)) [.authenticated t answer] .default [.authenticate token answer]
  | limited {endpoint : Endpoint} {token : String} {identity : Identity} {t : Nat} {exceeded : RateLimit.RateLimitExceeded}
      (h : Carries inbound endpoint token) :
      Finished (.answered (.failure (.rateLimited exceeded.retryAfterSecs))) [.authenticated t (.ok (some identity))] .default
        [.authenticate token (.ok (some identity)), .probe identity.bucketKey (.error exceeded)]
  | unread {endpoint : Endpoint} {token : String} {identity : Identity} {t now : Nat} {upload : Upload} {error : AppError}
      (h : Carries inbound endpoint token)
      (hb : readBody state (told identity inbound [.authenticated t (.ok (some identity)), .read now upload]) = .error error) :
      Finished (.answered (.failure error)) [.authenticated t (.ok (some identity)), .read now upload]
        (Audit.default.setIdentity identity) (admission token identity)
  | overcharged {endpoint : Endpoint} {token : String} {identity : Identity} {t now : Nat} {upload : Upload} {request : Request}
      {body : Bytes} {p : Plan} {limiter : RateLimit.State String} {exceeded : RateLimit.RateLimitExceeded}
      (h : Carries inbound endpoint token)
      (hr : request = told identity inbound [.authenticated t (.ok (some identity)), .read now upload])
      (hb : readBody state request = .ok body) (hp : plan state request body endpoint = p)
      (hl : ChargedAt state calls i request p.commandCount limiter)
      (hc : (charged state request limiter p.commandCount).1 = .error exceeded) :
      Finished (.answered (.failure (.rateLimited exceeded.retryAfterSecs)))
        [.authenticated t (.ok (some identity)), .read now upload]
        (audited (Audit.default.setIdentity identity) p.label)
        (admission token identity ++ [.charge identity.bucketKey p.commandCount (.error exceeded)])
  | answered {endpoint : Endpoint} {token : String} {identity : Identity} {t now : Nat} {upload : Upload} {request : Request}
      {p : Plan} {result : Except AppError Response} (h : Carries inbound endpoint token)
      (hr : request = told identity inbound [.authenticated t (.ok (some identity)), .read now upload])
      (hg : Granted state calls i request endpoint p) (hn : p.next = .answer result) :
      Finished (.answered (.ofResult result)) [.authenticated t (.ok (some identity)), .read now upload]
        (audited (Audit.default.setIdentity identity) p.label) (charging token identity p.commandCount)
  | unleased {endpoint : Endpoint} {token : String} {identity : Identity} {t now : Nat} {upload : Upload} {request : Request}
      {error : AcquireError} {p : Plan} {work : Work} (h : Carries inbound endpoint token)
      (hr : request = told identity inbound [.authenticated t (.ok (some identity)), .read now upload, .acquired (.error error)])
      (hg : Granted state calls i request endpoint p) (hw : p.next = .work work) :
      Finished (.answered (.failure (mapAcquireError state error)))
        [.authenticated t (.ok (some identity)), .read now upload, .acquired (.error error)]
        (audited (Audit.default.setIdentity identity) p.label)
        (charging token identity p.commandCount ++ [.acquire identity.pool (.error error)])
  | finished {endpoint : Endpoint} {token : String} {identity : Identity} {t now : Nat} {upload : Upload} {request : Request}
      {executor : Executor} {p : Plan} {work : Work} (h : Carries inbound endpoint token)
      (hr : request = told identity inbound
        [.authenticated t (.ok (some identity)), .read now upload, .acquired (.ok ()), .called executor])
      (hg : Granted state calls i request endpoint p) (hw : p.next = .work work) :
      Finished (.answered (.ofResult (work.finish state request)))
        [.authenticated t (.ok (some identity)), .read now upload, .acquired (.ok ()), .called executor]
        (audited (Audit.default.setIdentity identity) p.label)
        (calling token identity p.commandCount work.operation ++ [.release])
  | elapsed {w : Waiting} {heard : List Signal} {audit : Audit} {deeds : List Deed} (h : Reached state calls i inbound w heard audit deeds)
      (hw : w.timed = true) : Finished (.answered (overloaded state)) (heard ++ [.elapse]) audit (deeds ++ w.lease)
  | abandoned {w : Waiting} {heard : List Signal} {audit : Audit} {deeds : List Deed}
      (h : Reached state calls i inbound w heard audit deeds) : Finished .dropped (heard ++ [.abandon]) audit (deeds ++ w.lease)

def Traced (task : Task) : Prop :=
  match task.phase with
  | .waiting w => Reached state calls i inbound w task.heard task.audit task.deeds
  | phase => Finished state calls i inbound phase task.heard task.audit task.deeds

end Histories

section Mono
variable {state : AppState} {calls more : List Owned} {i : Nat} {inbound : Inbound}

private theorem ChargedAt.mono {request : Request} {commandCount : Nat} {limiter : RateLimit.State String}
    (h : ChargedAt state calls i request commandCount limiter) : ChargedAt state (calls ++ more) i request commandCount limiter := by
  obtain ⟨before, hb, hl⟩ := h
  exact ⟨before, hb.trans (List.prefix_append _ _), hl⟩

private theorem Granted.mono {request : Request} {endpoint : Endpoint} {p : Plan} (h : Granted state calls i request endpoint p) :
    Granted state (calls ++ more) i request endpoint p := by
  obtain ⟨limiter, hl, hc⟩ := h.charged
  exact ⟨h.read, limiter, hl.mono, hc⟩

private theorem Reached.mono {w : Waiting} {heard : List Signal} {audit : Audit} {deeds : List Deed}
    (h : Reached state calls i inbound w heard audit deeds) : Reached state (calls ++ more) i inbound w heard audit deeds := by
  cases h with
  | checking hroute hlocal => exact .checking hroute hlocal
  | authenticating h => exact .authenticating h
  | reading h => exact .reading h
  | acquiring h hr hg hw => exact .acquiring h hr hg.mono hw
  | calling h hr hg hw => exact .calling h hr hg.mono hw

private theorem Finished.mono {phase : Phase} {heard : List Signal} {audit : Audit} {deeds : List Deed}
    (h : Finished state calls i inbound phase heard audit deeds) : Finished state (calls ++ more) i inbound phase heard audit deeds := by
  cases h with
  | entered available h => exact .entered available h
  | checked pools hroute hlocal => exact .checked pools hroute hlocal
  | rejected h hi => exact .rejected h hi
  | limited h => exact .limited h
  | unread h hb => exact .unread h hb
  | overcharged h hr hb hp hl hc => exact .overcharged h hr hb hp hl.mono hc
  | answered h hr hg hn => exact .answered h hr hg.mono hn
  | unleased h hr hg hw => exact .unleased h hr hg.mono hw
  | finished h hr hg hw => exact .finished h hr hg.mono hw
  | elapsed h hw => exact .elapsed h.mono hw
  | abandoned h => exact .abandoned h.mono

private theorem Traced.mono {task : Task} (h : Traced state calls i inbound task) : Traced state (calls ++ more) i inbound task := by
  rw [Traced] at h ⊢
  split at h
  · exact h.mono
  · exact h.mono

end Mono

section Step
variable {state : AppState} {calls : List Owned} {i : Nat} {task : Task}

/-- What the pool and the executor answer changes neither the body nor the plan nor the
charge. -/
theorem Granted.hear {request : Request} {endpoint : Endpoint} {p : Plan} (h : Granted state calls i request endpoint p)
    {signal : Signal} (hs : ∀ now upload, signal ≠ .read now upload) :
    Granted state calls i (Gateway.hear request signal) endpoint p := by
  have hread : readBody state (Gateway.hear request signal) = readBody state request := by
    cases signal with
    | read now upload => exact absurd rfl (hs now upload)
    | _ => rfl
  have hnow : (Gateway.hear request signal).now = request.now := by
    cases signal with
    | read now upload => exact absurd rfl (hs now upload)
    | _ => rfl
  have hcharged (limiter : RateLimit.State String) (n : Nat) :
      Http.charged state (Gateway.hear request signal) limiter n = Http.charged state request limiter n := by
    rw [Http.charged, hear_identity, hnow]
    rfl
  obtain ⟨body, hb, hp⟩ := h.read
  obtain ⟨limiter, hl, hc⟩ := h.charged
  refine ⟨⟨body, hread.trans hb, ?_⟩, limiter, ?_, ?_⟩
  · rw [plan_congr (hear_identity request signal) (hear_encodingHeader request signal), hp]
  · simp only [ChargedAt, chargeCalls, hcharged, hear_identity, hnow]
    exact hl
  · rw [hcharged]
    exact hc

/-- The charge that a turn makes is made in the state that the turn finds. -/
theorem chargedAt_turn {limiter : RateLimit.State String} (hl : RateLimit.run state.rateLimiter (timed calls) = limiter)
    (request : Request) (commandCount : Nat) :
    ChargedAt state (calls ++ chargeCalls state i request commandCount limiter) i request commandCount limiter :=
  ⟨calls, List.prefix_refl _, hl⟩

/-- A turn of a task goes on with its history. -/
theorem Reached.turn {w : Waiting} {limiter : RateLimit.State String} {signal : Signal} {t : Turn}
    (h : Reached state calls i task.inbound w task.heard task.audit task.deeds) (ht : Turns state limiter task signal w t)
    (hl : RateLimit.run state.rateLimiter (timed calls) = limiter) :
    Traced state (calls ++ t.calls.map fun call => (some i, call)) i task.inbound (task.turned signal t) := by
  obtain ⟨inbound, phase, audit, heard, deeds, held⟩ := task
  cases ht with
  | checked pools => cases h with | checking hroute hlocal => exact Finished.checked pools hroute hlocal
  | rejected hi => cases h with | authenticating h => exact Finished.rejected h hi
  | limited hp => cases h with | authenticating h => exact Finished.limited h
  | probed hp => cases h with | authenticating h => exact Reached.reading h
  | unread hroute hb =>
    cases h with
    | reading h =>
      obtain rfl := Route.api.inj (h.route.symm.trans hroute)
      exact Finished.unread h hb
  | overcharged hroute hr hb hp hc =>
    cases h with
    | reading h =>
      obtain rfl := Route.api.inj (h.route.symm.trans hroute)
      subst hr
      exact Finished.overcharged h rfl hb hp (chargedAt_turn hl _ _) hc
  | answered hroute hr hb hp hc hn =>
    cases h with
    | reading h =>
      obtain rfl := Route.api.inj (h.route.symm.trans hroute)
      subst hr
      exact Finished.answered h rfl ⟨⟨_, hb, hp⟩, _, chargedAt_turn hl _ _, hc⟩ hn
  | planned hroute hr hb hp hc hn =>
    cases h with
    | reading h =>
      obtain rfl := Route.api.inj (h.route.symm.trans hroute)
      subst hr
      exact Reached.acquiring h rfl ⟨⟨_, hb, hp⟩, _, chargedAt_turn hl _ _, hc⟩ hn
  | unleased error =>
    cases h with
    | acquiring h hr hg hw =>
      subst hr
      have hg : Granted state calls i (Gateway.hear _ (.acquired (.error error))) _ _ := hg.hear (by simp)
      exact Finished.unleased h rfl hg.mono hw
  | leased =>
    cases h with
    | acquiring h hr hg hw =>
      subst hr
      have hg : Granted state calls i (Gateway.hear _ (.acquired (.ok ()))) _ _ := hg.hear (by simp)
      exact Reached.calling h rfl hg.mono hw
  | finished executor =>
    cases h with
    | calling h hr hg hw =>
      subst hr
      have hg : Granted state calls i (Gateway.hear _ (.called executor)) _ _ := hg.hear (by simp)
      exact Finished.finished h rfl hg.mono hw
  | elapsed hw => exact Finished.elapsed h.mono hw
  | abandoned w => exact Finished.abandoned h.mono

/-- The limiter after a turn is what the turn's calls made of it. -/
theorem Turns.limiter {w : Waiting} {limiter : RateLimit.State String} {signal : Signal} {t : Turn}
    (h : Turns state limiter task signal w t) :
    t.limiter = RateLimit.runFrom state.rateLimiter limiter (t.calls.map Prod.fst) := by
  cases h <;> rfl

end Step

/-- The limiter is what its calls made of it, and every task has its history. -/
structure Coherent (state : AppState) (s : State) : Prop where
  limiter : RateLimit.run state.rateLimiter (timed s.calls) = s.limiter
  traced : ∀ i task, s.tasks[i]? = some task → Traced state s.calls i task.inbound task

private theorem Enters.traced {state : AppState} (calls : List Owned) (i : Nat) {available : Nat} {inbound : Inbound} {phase : Phase}
    {counted : List Counter} (h : Enters state available inbound phase counted) (held : List Guard) :
    Traced state calls i inbound ⟨inbound, phase, .default, [], [], held⟩ := by
  cases h with
  | checking hroute hlocal => exact Reached.checking hroute hlocal
  | authenticating ha hroute hb => exact Reached.authenticating ⟨hroute, hb⟩
  | shed ha => exact Finished.entered available (.shed ha)
  | unauthorized hb => exact Finished.entered available (.unauthorized hb)
  | healthy => exact Finished.entered available .healthy
  | notFound => exact Finished.entered available .notFound
  | methodNotAllowed => exact Finished.entered available .methodNotAllowed
  | payloadTooLarge => exact Finished.entered available .payloadTooLarge

theorem timed_append (calls more : List Owned) : timed (calls ++ more) = timed calls ++ timed more := List.map_append

theorem coherent_step {state : AppState} {s t : State} {e : Event} (h : Coherent state s)
    (hs : (machine state).step s e = some t) : Coherent state t := by
  rcases step_cases hs with ⟨inbound, -, rfl⟩ | ⟨i, signal, task, w, turn, -, hi, hw, ht, rfl⟩ | ⟨now, -, rfl⟩
  · refine ⟨h.limiter, ?_⟩
    intro j task hj
    simp only [State.arrive] at hj
    by_cases hlt : j < s.tasks.length
    · rw [List.getElem?_append_left hlt] at hj
      exact h.traced j task hj
    · rw [List.getElem?_append_right (not_lt.mp hlt), List.getElem?_singleton] at hj
      split at hj
      · cases hj
        exact (enters_enter state s.available inbound).traced s.calls j _
      · cases hj
  · refine ⟨?_, ?_⟩
    · simp only [State.withTurn]
      rw [timed_append, RateLimit.run_append, h.limiter, ht.limiter, timed, List.map_map]
      rfl
    · intro j other hj
      simp only [State.withTurn] at hj
      by_cases hij : i = j
      · subst hij
        rw [List.getElem?_set_self (List.getElem?_eq_some_iff.mp hi).1] at hj
        cases hj
        have hr := h.traced i task hi
        rw [Traced, hw] at hr
        exact Reached.turn hr ht h.limiter
      · rw [List.getElem?_set_ne hij] at hj
        exact (h.traced j other hj).mono
  · refine ⟨?_, ?_⟩
    · simp only [State.sweep]
      rw [timed_append, RateLimit.run_append, h.limiter]
      rfl
    · intro j task hj
      exact (h.traced j task hj).mono

theorem coherent_run {state : AppState} {events : List Event} {s : State}
    (h : (machine state).run (start state) events = some s) : Coherent state s := by
  apply Machine.run_invariant (fun _ _ _ => coherent_step) h
  refine ⟨rfl, ?_⟩
  intro i task hi
  cases hi

end Srh.Http.Gateway
