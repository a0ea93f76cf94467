import Srh.Domain.RateLimitLoad
import Srh.Http.GatewayAudit

/-! The load that one bucket puts on Redis. The deeds of the tasks are the ledger of the
limiter: what reaches Redis was charged, and what was charged is bounded. -/
namespace Srh.Http.Gateway
open Srh.Lib Srh.Domain Srh.Ports Extractors

def spent (key : String) (deeds : List Deed) : List Nat :=
  deeds.filterMap fun
    | .charge k commandCount (.ok _) => if k = key then some (max 1 commandCount) else none
    | _ => none

def Deed.sent : Deed → Nat
  | call operation => operation.commands.length
  | _ => 0

def Deed.charges (key : String) : Deed → Bool
  | charge k _ _ => k = key
  | _ => false

def Task.sent (key : String) (task : Task) : Nat :=
  if task.deeds.any (Deed.charges key) then tally Deed.sent task.deeds else 0

def State.log (s : State) : List LimiterCall := s.calls.map Prod.snd

section Ledger
variable {state : AppState} {limiter : RateLimit.State String} {task : Task} {signal : Signal} {w : Waiting} {t : Turn}

private theorem spent_append (key : String) (deeds more : List Deed) : spent key (deeds ++ more) = spent key deeds ++ spent key more :=
  List.filterMap_append

private theorem spent_lease (key : String) (w : Waiting) : spent key w.lease = [] := by
  cases w <;> rfl

/-- The calls of a turn are those of the limiter, with its answers. -/
theorem Turns.calls (h : Turns state limiter task signal w t) :
    t.calls = RateLimit.logFrom state.rateLimiter limiter (t.calls.map Prod.fst) := by
  cases h <;> rfl

/-- A charge is entered in the ledger as the limiter answers it. -/
theorem admitted_charge (key k : String) (now n count : Nat) (outcome : RateLimit.Outcome) (later : List Deed)
    (hlater : spent key later = []) :
    RateLimit.admitted key [(⟨now, .charge k n⟩, .outcome outcome), (⟨now, .takeDebtForgivenEvictions⟩, .count count)] =
      spent key (.charge k n outcome :: later) := by
  cases outcome with
  | error exceeded => exact hlater.symm
  | ok u =>
    rw [spent] at hlater
    simp only [RateLimit.admitted, spent, List.filterMap_cons, List.filterMap_nil, hlater]

private theorem Turns.spent (h : Turns state limiter task signal w t) (key : String) :
    RateLimit.admitted key t.calls = Gateway.spent key t.deeds := by
  cases h with
  | overcharged _ _ _ _ h => rw [afterAccess, accessCalls, h, admitted_charge _ _ _ _ _ _ [] rfl]
  | answered _ _ _ _ h _ => rw [afterAccess, accessCalls, h, admitted_charge _ _ _ _ _ _ [] rfl]
  | planned _ _ _ _ h _ => rw [afterAccess, accessCalls, h, admitted_charge _ _ _ _ _ _ [] rfl]
  | elapsed _ => exact (spent_lease key w).symm
  | abandoned _ => exact (spent_lease key w).symm
  | _ => rfl

/-- No price is above the largest batch. -/
theorem commandCount_le (request : Request) (body : Bytes) (endpoint : Endpoint) :
    (plan state request body endpoint).commandCount ≤ max 1 state.cfg.server.maxPipelineCommands := by
  cases endpoint with
  | command =>
    rw [plan, planCommand]
    split <;> exact Nat.le_max_left ..
  | pipeline =>
    rw [plan, planPipeline]
    split
    · exact Nat.le_max_left ..
    · rename_i commands hparse
      exact (Parse.pipeline_length hparse).trans (Nat.le_max_right ..)
  | multiExec =>
    rw [plan, planMultiExec]
    split
    · exact Nat.le_max_left ..
    · rename_i commands hparse
      split
      · exact Nat.le_max_left ..
      · exact (Parse.pipeline_length hparse).trans (Nat.le_max_right ..)

private theorem Turns.charge_le (h : Turns state limiter task signal w t) :
    ∀ call ∈ t.calls, ∀ key n, call.1.call = .charge key n → n ≤ max 1 state.cfg.server.maxPipelineCommands := by
  -- of the two calls of an access only the first can be a charge
  have access {accessed : RateLimit.Outcome × RateLimit.State String} {first : RateLimit.Timed String}
      (hfirst : ∀ key n, first.call = .charge key n → n ≤ max 1 state.cfg.server.maxPipelineCommands) :
      ∀ call ∈ accessCalls accessed first, ∀ key n, call.1.call = .charge key n →
        n ≤ max 1 state.cfg.server.maxPipelineCommands := by
    rw [accessCalls, List.forall_mem_cons, List.forall_mem_singleton]
    refine ⟨hfirst, ?_⟩
    rintro key n ⟨⟩
  cases h with
  | limited h => apply access; rintro key n ⟨⟩
  | probed h => apply access; rintro key n ⟨⟩
  | overcharged _ _ _ hp _ => apply access; rintro key n ⟨⟩; rw [← hp]; exact commandCount_le _ _ _
  | answered _ _ _ hp _ _ => apply access; rintro key n ⟨⟩; rw [← hp]; exact commandCount_le _ _ _
  | planned _ _ _ hp _ _ => apply access; rintro key n ⟨⟩; rw [← hp]; exact commandCount_le _ _ _
  | _ =>
    intro call hm
    cases hm

end Ledger

/-- The limiter's calls and the tasks' deeds keep one ledger. -/
structure Ledger (state : AppState) (s : State) : Prop where
  log : s.log = RateLimit.logFrom state.rateLimiter .empty (timed s.calls)
  spent : ∀ key, (RateLimit.admitted key s.log).sum = tally (fun task => (spent key task.deeds).sum) s.tasks
  small : ∀ call ∈ timed s.calls, ∀ key n, call.call = .charge key n → n ≤ max 1 state.cfg.server.maxPipelineCommands

private theorem ledger_step {state : AppState} {s t : State} {e : Event} (hc : Coherent state s) (h : Ledger state s)
    (hs : (machine state).step s e = some t) : Ledger state t := by
  rcases step_cases hs with ⟨inbound, -, rfl⟩ | ⟨i, signal, task, w, turn, -, hi, hw, ht, rfl⟩ | ⟨now, -, rfl⟩
  · refine ⟨h.log, ?_, h.small⟩
    intro key
    simp only [State.arrive, tally_concat]
    exact h.spent key
  · have hlog : (s.withTurn i task signal turn).log = s.log ++ turn.calls := by
      simp only [State.log, State.withTurn, List.map_append, List.map_map]
      congr 1
      exact List.map_id _
    have htimed : timed (s.withTurn i task signal turn).calls = timed s.calls ++ turn.calls.map Prod.fst := by
      simp only [State.withTurn, timed_append]
      rw [timed, timed, List.map_map]
      rfl
    refine ⟨?_, ?_, ?_⟩
    · rw [hlog, htimed, RateLimit.logFrom_append, ← h.log]
      congr 1
      have hl : RateLimit.runFrom state.rateLimiter .empty (timed s.calls) = s.limiter := hc.limiter
      rw [hl]
      exact ht.calls
    · intro key
      obtain ⟨rest, hold, hset⟩ := tally_frame (fun task => (spent key task.deeds).sum) hi
      have hsum := h.spent key
      rw [hold] at hsum
      rw [hlog, RateLimit.admitted, List.filterMap_append, List.sum_append]
      have hturn := ht.spent key
      rw [RateLimit.admitted] at hsum hturn
      rw [hsum, hturn]
      simp only [State.withTurn, Task.turned, hset, spent_append, List.sum_append]
      omega
    · rw [htimed]
      intro call hm
      rcases List.mem_append.mp hm with hm | hm
      · exact h.small call hm
      · obtain ⟨c, hc, rfl⟩ := List.mem_map.mp hm
        exact ht.charge_le c hc
  · have hlog : (s.sweep state now).log = s.log ++ [(⟨now, .sweepIdle⟩, .count (RateLimit.sweepIdle state.rateLimiter s.limiter now).1)] :=
      List.map_append
    refine ⟨?_, ?_, ?_⟩
    · rw [hlog]
      simp only [State.sweep, timed_append]
      rw [RateLimit.logFrom_append, ← h.log]
      have hl : RateLimit.runFrom state.rateLimiter .empty (timed s.calls) = s.limiter := hc.limiter
      rw [hl]
      rfl
    · intro key
      rw [hlog, RateLimit.admitted, List.filterMap_append, List.sum_append]
      exact h.spent key
    · simp only [State.sweep, timed_append]
      intro call hm
      rcases List.mem_append.mp hm with hm | hm
      · exact h.small call hm
      · cases List.mem_singleton.mp hm
        rintro key n ⟨⟩

private theorem ledger_run {state : AppState} {events : List Event} {s : State}
    (h : (machine state).run (start state) events = some s) : Ledger state s := by
  have hboth : Coherent state s ∧ Ledger state s := by
    apply Machine.run_invariant (I := fun s => Coherent state s ∧ Ledger state s) _ h
    · refine ⟨⟨rfl, ?_⟩, rfl, fun _ => rfl, ?_⟩
      · intro i task hi
        cases hi
      · intro call hm
        cases hm
    · rintro s e t ⟨hc, hl⟩ hs
      exact ⟨coherent_step hc hs, ledger_step hc hl hs⟩
  exact hboth.2

private theorem Ledger.admitted_le {state : AppState} {s : State} (h : Ledger state s) (key : String) :
    ∀ n ∈ RateLimit.admitted key s.log, n ≤ max 1 state.cfg.server.maxPipelineCommands := by
  intro n hn
  obtain ⟨e, he, hcost⟩ := List.mem_filterMap.mp hn
  obtain ⟨call, hcall, rfl⟩ := List.mem_map.mp he
  split at hcost
  · rename_i k m _ hk _
    split at hcost
    · cases hcost
      exact max_le (le_max_left ..) (h.small _ (List.mem_map_of_mem hcall) k m hk)
    · cases hcost
  · cases hcost

section Sent
variable {state : AppState} {calls : List Owned} {i : Nat} {task : Task}

/-- What a task has sent, its bucket was charged for. -/
theorem Traced.sent_le (h : Traced state calls i task.inbound task) (key : String) :
    task.sent key ≤ (spent key task.deeds).sum := by
  by_cases hcall : ∃ operation, Deed.call operation ∈ task.deeds
  · obtain ⟨operation, hc⟩ := hcall
    obtain ⟨endpoint, token, identity, commandCount, hcalled⟩ := h.called hc
    obtain ⟨request, body, p, work, -, rfl, rfl, he⟩ := hcalled.entitled
    have hle := he.length_le
    by_cases hk : identity.bucketKey = key
    · rcases hcalled.deeds with hd | hd <;>
        simp [Task.sent, hd, calling, charging, admission, spent, Deed.sent, Deed.charges, hk, tally] <;> omega
    · rcases hcalled.deeds with hd | hd <;>
        simp [Task.sent, hd, calling, charging, admission, Deed.charges, hk]
  · have hzero : tally Deed.sent task.deeds = 0 := by
      apply tally_eq_zero
      intro deed hd
      cases deed with
      | call operation => exact absurd ⟨operation, hd⟩ hcall
      | _ => rfl
    rw [Task.sent, hzero, ite_self]
    exact Nat.zero_le _

end Sent

/-- A list is at most its sum without the last member, and a bound on the members. -/
theorem sum_le_dropLast {l : List Nat} {bound : Nat} (h : ∀ n ∈ l, n ≤ bound) : l.sum ≤ l.dropLast.sum + bound := by
  rcases List.eq_nil_or_concat l with rfl | ⟨front, last, rfl⟩
  · exact Nat.zero_le _
  · rw [List.concat_eq_append, List.dropLast_concat, List.sum_append, List.sum_singleton]
    have := h last (by simp)
    omega

/-- In every interleaving whose clock readings reach the limiter in order, over at most as
many buckets as the limiter keeps and with batches that a bucket repays within the idle
time, the requests of one bucket send Redis fewer commands than its capacity, what the
elapsed time earns, and one largest batch. -/
theorem redis_load_bounded (state : AppState) (events : List Event) (s : State) (key : String) (keys : List String)
    (hrun : (machine state).run (start state) events = some s) (hrate : 0 < state.rateLimiter.rate)
    (hclock : RateLimit.NonDecreasing (timed s.calls)) (hkeys : RateLimit.OverKeys keys (timed s.calls))
    (hlen : keys.length ≤ state.rateLimiter.maxBuckets)
    (hbatch : ((max 1 state.cfg.server.maxPipelineCommands : Nat) : ℚ) + state.rateLimiter.capacity ≤
      900 * state.rateLimiter.rate) :
    ((tally (Task.sent key) s.tasks : Nat) : ℚ) <
      state.rateLimiter.capacity +
        state.rateLimiter.rate * RateLimit.elapsedSecs (RateLimit.latest s.log) (RateLimit.earliest s.log) +
        (max 1 state.cfg.server.maxPipelineCommands : Nat) := by
  have hledger := ledger_run hrun
  have hcharges : ∀ c ∈ timed s.calls, ∀ k n, c.call = .charge k n →
      (n : ℚ) + state.rateLimiter.capacity ≤ 900 * state.rateLimiter.rate := by
    intro c hc k n hcall
    have hn : (n : ℚ) ≤ (max 1 state.cfg.server.maxPipelineCommands : Nat) :=
      Nat.cast_le.mpr (hledger.small c hc k n hcall)
    linarith
  have hbound : RateLimit.Bounded state.rateLimiter key s.log := by
    rw [hledger.log]
    exact RateLimit.bounded_of_small hrate key hlen hkeys hclock hcharges
  have hsent : tally (Task.sent key) s.tasks ≤ (RateLimit.admitted key s.log).sum := by
    rw [hledger.spent key]
    apply List.sum_le_sum
    intro task hm
    obtain ⟨i, hi⟩ := List.mem_iff_getElem?.mp hm
    exact ((coherent_run hrun).traced i task hi).sent_le key
  have hsum := hsent.trans (sum_le_dropLast (hledger.admitted_le key))
  rw [RateLimit.Bounded] at hbound
  have hsum : ((tally (Task.sent key) s.tasks : Nat) : ℚ) ≤
      ((RateLimit.admitted key s.log).dropLast.sum : ℚ) + (max 1 state.cfg.server.maxPipelineCommands : Nat) := by
    exact_mod_cast hsum
  linarith

theorem redis_load_bounded_sample :
    ∃ s, (machine sampleServer).run (start sampleServer) sampleEvents = some s ∧
      ((tally (Task.sent sampleRequest.identity.bucketKey) s.tasks : Nat) : ℚ) <
        200 + 100 * RateLimit.elapsedSecs (RateLimit.latest s.log) (RateLimit.earliest s.log) + 1000 := by
  have h : ((machine sampleServer).run (start sampleServer) sampleEvents).map (fun s =>
      decide ((timed s.calls).Pairwise fun a b => a.now ≤ b.now) &&
        (timed s.calls).all fun c => c.call.access?.all fun a => a.1 = sampleRequest.identity.bucketKey) = some true := by
    decide +kernel
  obtain ⟨s, hrun, h⟩ := Option.map_eq_some_iff.mp h
  rw [Bool.and_eq_true, decide_eq_true_eq, List.all_eq_true] at h
  have hkeys : RateLimit.OverKeys [sampleRequest.identity.bucketKey] (timed s.calls) := by
    intro c hc k a hcall
    simpa [hcall] using h.2 c hc
  have hrate : sampleServer.rateLimiter.rate = 100 := rfl
  have hcapacity : sampleServer.rateLimiter.capacity = 200 := by rw [RateLimit.RateLimiter.capacity, hrate]; norm_num
  have hbatch : max 1 sampleServer.cfg.server.maxPipelineCommands = 1000 := rfl
  have hbound := redis_load_bounded sampleServer sampleEvents s sampleRequest.identity.bucketKey _ hrun (by decide) h.1 hkeys
    (by decide) (by rw [hbatch, hcapacity, hrate]; norm_num)
  rw [hbatch, hcapacity, hrate] at hbound
  exact ⟨s, hrun, by simpa using hbound⟩

end Srh.Http.Gateway
