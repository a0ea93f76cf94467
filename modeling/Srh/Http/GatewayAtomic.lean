import Srh.Http.GatewayTrace

/-! Every request of the service is one run of its handler. The interleaved machine
refines the sequential handlers: a request acts as if it ran alone from its charge on,
in the state in which the limiter made that charge. -/
namespace Srh.Http.Gateway
open Srh.Lib Srh.Domain Srh.Ports Extractors

def chargeEffect? (call : Owned) : Option Effect :=
  match call.2.1.call with
  | .charge key commandCount => some (.charge key commandCount)
  | _ => none

/-- A stretch of the limiter's calls, all of one task, that starts in one state, ends in
another and makes the given charge. -/
def Stretch (state : AppState) (calls : List Owned) (i : Nat) (charge : List Effect) (limiter after : RateLimit.State String) :
    Prop :=
  ∃ before stretch, before ++ stretch <+: calls ∧ (∀ call ∈ stretch, call.1 = some i) ∧
    stretch.filterMap chargeEffect? = charge ∧ RateLimit.run state.rateLimiter (timed before) = limiter ∧
    RateLimit.run state.rateLimiter (timed (before ++ stretch)) = after

/-- The task is the run of its handler in the given state of the limiter, as far as it
got. -/
structure Atomic (state : AppState) (calls : List Owned) (i : Nat) (task : Task) (request : Request) (endpoint : Endpoint)
    (limiter : RateLimit.State String) : Prop where
  point : Stretch state calls i ((effects task.deeds).take 1) limiter (serve state request endpoint limiter).2.limiter
  acted : effects task.deeds <+: (serve state request endpoint limiter).2.trace
  answered : ∀ answer, task.phase = .answered answer →
    .elapse ∈ task.heard ∧ answer = overloaded state ∨
    answer = .ofResult (serve state request endpoint limiter).1 ∧
      effects task.deeds ++ [.respond] = (serve state request endpoint limiter).2.trace

section Serve
variable {state : AppState} {calls : List Owned} {i : Nat} {request : Request} {endpoint : Endpoint} {p : Plan}
  {limiter : RateLimit.State String}

/-- The stretch of a charge. -/
theorem ChargedAt.stretch (h : ChargedAt state calls i request p.commandCount limiter) :
    Stretch state calls i [.charge request.identity.bucketKey p.commandCount] limiter
      (World.charge ⟨limiter, []⟩ state request p.commandCount).limiter := by
  obtain ⟨before, hb, hl⟩ := h
  refine ⟨before, _, hb, ?_, rfl, hl, ?_⟩
  · intro call hm
    obtain ⟨c, -, rfl⟩ := List.mem_map.mp hm
    rfl
  · rw [timed_append, RateLimit.run_append, hl]
    rfl

private theorem Granted.served (h : Granted state calls i request endpoint p) :
    ∃ limiter, Stretch state calls i [.charge request.identity.bucketKey p.commandCount] limiter
        (serve state request endpoint limiter).2.limiter ∧
      (serve state request endpoint limiter).1 = (p.next.run state request).1 ∧
      (serve state request endpoint limiter).2.trace =
        .charge request.identity.bucketKey p.commandCount :: (p.next.run state request).2 ++ [.respond] := by
  obtain ⟨body, hb, hp⟩ := h.read
  obtain ⟨limiter, hl, hc⟩ := h.charged
  refine ⟨limiter, ?_⟩
  rw [serve_planned endpoint hb, hp, Plan.run, hc]
  exact ⟨hl.stretch, rfl, rfl⟩

private theorem overcharged_served {body : Bytes} {exceeded : RateLimit.RateLimitExceeded} (hb : readBody state request = .ok body)
    (hp : plan state request body endpoint = p) (hc : (charged state request limiter p.commandCount).1 = .error exceeded) :
    serve state request endpoint limiter =
      (.error (.rateLimited exceeded.retryAfterSecs),
        (World.charge ⟨limiter, []⟩ state request p.commandCount).log [.respond]) := by
  rw [serve_planned endpoint hb, hp, Plan.run, hc]

end Serve

section Histories
variable {state : AppState} {calls : List Owned} {i : Nat} {inbound : Inbound}

/-- A task that is at work has done what its handler does up to there, and so has one
that gives back its lease there. -/
theorem Reached.atomic {w : Waiting} {heard : List Signal} {audit : Audit} {deeds left : List Deed}
    (h : Reached state calls i inbound w heard audit deeds) (hleft : left = [] ∨ left = w.lease)
    (hread : ∃ now upload, Signal.read now upload ∈ heard) :
    ∃ endpoint identity token limiter, Carries inbound endpoint token ∧
      .authenticate token (.ok (some identity)) ∈ deeds ++ left ∧
      Stretch state calls i ((effects (deeds ++ left)).take 1) limiter
        (serve state (told identity inbound heard) endpoint limiter).2.limiter ∧
      effects (deeds ++ left) <+: (serve state (told identity inbound heard) endpoint limiter).2.trace := by
  obtain ⟨now, upload, hread⟩ := hread
  cases h with
  | checking _ _ => cases hread
  | authenticating _ => cases hread
  | reading _ => simp at hread
  | @acquiring endpoint token identity t now upload request p work hcarries hr hg hw =>
    obtain ⟨limiter, hs, -, htrace⟩ := hg.served
    rw [hw, Next.run, hr] at htrace
    subst hr
    have hleft : left = [] := hleft.elim id id
    subst hleft
    refine ⟨endpoint, identity, token, limiter, hcarries, List.mem_cons_self, hs, ?_⟩
    rw [htrace]
    exact ⟨[.acquire identity.pool, .respond], rfl⟩
  | @calling endpoint token identity t now upload request p work hcarries hr hg hw =>
    obtain ⟨limiter, hs, -, htrace⟩ := hg.served
    rw [hw, Next.run, hr] at htrace
    subst hr
    refine ⟨endpoint, identity, token, limiter, hcarries, List.mem_cons_self, hs, ?_⟩
    rw [htrace]
    rcases hleft with rfl | rfl
    · exact ⟨[.release, .respond], rfl⟩
    · exact ⟨[.respond], rfl⟩

def Linearized (state : AppState) (calls : List Owned) (i : Nat) (task : Task) : Prop :=
  ∃ endpoint identity token limiter, Carries task.inbound endpoint token ∧
    .authenticate token (.ok (some identity)) ∈ task.deeds ∧
    Atomic state calls i task (told identity task.inbound task.heard) endpoint limiter

private theorem told_append (identity : Identity) (inbound : Inbound) (heard more : List Signal) :
    told identity inbound (heard ++ more) = more.foldl hear (told identity inbound heard) := List.foldl_append

/-- Being stopped does nothing that the handler would not do. -/
theorem Reached.stopped {w : Waiting} {heard : List Signal} {audit : Audit} {deeds : List Deed} {signal : Signal} {phase : Phase}
    {held : List Guard} (h : Reached state calls i inbound w heard audit deeds) (hs : signal = .elapse ∨ signal = .abandon)
    (hp : ∀ answer, phase = .answered answer → signal = .elapse ∧ answer = overloaded state)
    (hread : ∃ now upload, Signal.read now upload ∈ heard ++ [signal]) :
    Linearized state calls i ⟨inbound, phase, audit, heard ++ [signal], deeds ++ w.lease, held⟩ := by
  have hread : ∃ now upload, Signal.read now upload ∈ heard := by
    obtain ⟨now, upload, hm⟩ := hread
    rcases List.mem_append.mp hm with hm | hm
    · exact ⟨now, upload, hm⟩
    · rcases hs with rfl | rfl <;> simp at hm
  obtain ⟨endpoint, identity, token, limiter, hcarries, hmem, hpoint, hacted⟩ := h.atomic (.inr rfl) hread
  have htold : told identity inbound (heard ++ [signal]) = told identity inbound heard := by
    rw [told_append]
    rcases hs with rfl | rfl <;> rfl
  refine ⟨endpoint, identity, token, limiter, hcarries, hmem, ?_⟩
  dsimp only
  rw [htold]
  refine ⟨hpoint, hacted, ?_⟩
  intro answer ha
  obtain ⟨rfl, rfl⟩ := hp answer ha
  exact .inl ⟨by simp, rfl⟩

/-- A history that ends with the answer of the handler. -/
theorem Granted.linearized {heard : List Signal} {audit : Audit} {deeds : List Deed} {request : Request} {endpoint : Endpoint}
    {token : String} {identity : Identity} {p : Plan} {next : Next} {result : Except AppError Response} {later : List Effect}
    {held : List Guard}
    (hg : Granted state calls i request endpoint p) (hr : request = told identity inbound heard)
    (hcarries : Carries inbound endpoint token) (hn : p.next = next) (hrun : next.run state request = (result, later))
    (hmem : .authenticate token (.ok (some identity)) ∈ deeds)
    (hdeeds : effects deeds = .charge request.identity.bucketKey p.commandCount :: later) :
    Linearized state calls i ⟨inbound, .answered (.ofResult result), audit, heard, deeds, held⟩ := by
  obtain ⟨limiter, hs, hresult, htrace⟩ := hg.served
  rw [hn, hrun] at hresult htrace
  refine ⟨endpoint, identity, token, limiter, hcarries, hmem, ?_⟩
  dsimp only
  rw [← hr]
  refine ⟨?_, ?_, ?_⟩
  · rw [hdeeds]
    exact hs
  · rw [htrace, hdeeds]
    exact ⟨[.respond], rfl⟩
  · intro answer ha
    cases ha
    rw [hresult, htrace, hdeeds]
    exact .inr ⟨rfl, rfl⟩

private theorem Finished.linearized {phase : Phase} {heard : List Signal} {audit : Audit} {deeds : List Deed} {held : List Guard}
    (h : Finished state calls i inbound phase heard audit deeds) (hread : ∃ now upload, Signal.read now upload ∈ heard) :
    Linearized state calls i ⟨inbound, phase, audit, heard, deeds, held⟩ := by
  cases h with
  | entered available h =>
    obtain ⟨now, upload, hm⟩ := hread
    cases hm
  | checked pools _ _ =>
    obtain ⟨now, upload, hm⟩ := hread
    simp at hm
  | rejected h hi =>
    obtain ⟨now, upload, hm⟩ := hread
    simp at hm
  | limited h =>
    obtain ⟨now, upload, hm⟩ := hread
    simp at hm
  | @unread endpoint token identity t now upload error hcarries hb =>
    refine ⟨endpoint, identity, token, .empty, hcarries, List.mem_cons_self, ?_⟩
    refine ⟨?_, ?_, ?_⟩
    · rw [serve_unread endpoint hb]
      refine ⟨[], [], List.nil_prefix, ?_, rfl, rfl, rfl⟩
      intro call hm
      cases hm
    · exact List.nil_prefix
    · intro answer ha
      cases ha
      rw [serve_unread endpoint hb]
      exact .inr ⟨rfl, rfl⟩
  | @overcharged endpoint token identity t now upload request body p limiter exceeded hcarries hr hb hp hl hc =>
    have hserve := overcharged_served hb hp hc
    subst hr
    refine ⟨endpoint, identity, token, limiter, hcarries, List.mem_cons_self, ?_⟩
    refine ⟨?_, ?_, ?_⟩
    · rw [hserve]
      exact hl.stretch
    · rw [hserve]
      exact ⟨[.respond], rfl⟩
    · intro answer ha
      cases ha
      rw [hserve]
      exact .inr ⟨rfl, rfl⟩
  | answered h hr hg hn =>
    subst hr
    exact hg.linearized rfl h hn rfl List.mem_cons_self rfl
  | unleased h hr hg hw =>
    subst hr
    exact hg.linearized rfl h hw rfl List.mem_cons_self rfl
  | finished h hr hg hw =>
    subst hr
    exact hg.linearized rfl h hw rfl List.mem_cons_self rfl
  | elapsed h hw =>
    apply h.stopped (.inl rfl) _ hread
    rintro answer ⟨⟩
    exact ⟨rfl, rfl⟩
  | abandoned h =>
    apply h.stopped (.inr rfl) _ hread
    rintro answer ⟨⟩

end Histories

/-- In every interleaving, a request that has read its body acts as its handler would
alone, in the state of the limiter in which its charge was made. It has done no more, the
charge is its own, and it answers the same unless its time ran out. -/
theorem requests_linearize (state : AppState) (events : List Event) (s : State)
    (hrun : (machine state).run (start state) events = some s) (i : Nat) (task : Task) (hi : s.tasks[i]? = some task)
    (hread : ∃ now upload, Signal.read now upload ∈ task.heard) : Linearized state s.calls i task := by
  have ht := (coherent_run hrun).traced i task hi
  obtain ⟨inbound, phase, audit, heard, deeds, held⟩ := task
  cases phase with
  | waiting w =>
    have hreached : Reached state s.calls i inbound w heard audit deeds := ht
    obtain ⟨endpoint, identity, token, limiter, hcarries, hmem, hpoint, hacted⟩ := hreached.atomic (.inl rfl) hread
    rw [List.append_nil] at hmem hpoint hacted
    refine ⟨endpoint, identity, token, limiter, hcarries, hmem, hpoint, hacted, ?_⟩
    rintro answer ⟨⟩
  | answered answer => exact Finished.linearized ht hread
  | dropped => exact Finished.linearized ht hread

theorem requests_linearize_sample :
    ∃ s task, (machine sampleServer).run (start sampleServer) sampleEvents = some s ∧ s.tasks[0]? = some task ∧
      Linearized sampleServer s.calls 0 task := by
  obtain ⟨s, task, hrun, hi, hread, -⟩ := sample_served
  exact ⟨s, task, hrun, hi, requests_linearize sampleServer sampleEvents s hrun 0 task hi hread⟩

end Srh.Http.Gateway
