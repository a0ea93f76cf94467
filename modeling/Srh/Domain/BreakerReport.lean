import Srh.Domain.BreakerRun
import Srh.Lib.Instant
import Mathlib.Data.List.Induction

/-! What can be read off a breaker from outside: the transitions that its
operations return, the gauge they are written to, and the outcomes reported to
it. Here an operation may carry any permit value, issued or not. -/
namespace Srh.Domain.Breaker
open Srh.Lib

inductive Call where
  | tryAdmit
  | record (permit : BreakerPermit) (failed : Bool)
  | cancel (permit : BreakerPermit)
  deriving DecidableEq, Repr

structure Timed where
  now : Nat
  call : Call
  deriving DecidableEq, Repr

def NonDecreasing (calls : List Timed) : Prop := calls.Pairwise fun d e => d.now ≤ e.now

instance (calls : List Timed) : Decidable (NonDecreasing calls) := inferInstanceAs (Decidable (List.Pairwise _ _))

def perform (breaker : Breaker) (inner : Inner) (now : Nat) : Call → Option BreakerTransition × Inner
  | .tryAdmit =>
    match tryAdmit breaker inner now with
    | (.ok admission, next) => (admission.transition, next)
    | (.error _, next) => (none, next)
  | .record permit failed => record breaker inner now permit failed
  | .cancel permit => (none, cancel inner permit)

/-- The value that emit_transition sets srh_pool_breaker_state to. -/
def emitTransition : BreakerTransition → Nat
  | .closed => 0
  | .probeStarted => 1
  | .opened => 2

def BreakerState.gauge : BreakerState → Nat
  | .closed => 0
  | .halfOpen => 1
  | .opened => 2

def BreakerTransition.target : BreakerTransition → BreakerState
  | .opened => .opened
  | .probeStarted => .halfOpen
  | .closed => .closed

private theorem emitTransition_eq (transition : BreakerTransition) : emitTransition transition = transition.target.gauge := by
  cases transition <;> rfl

/-- The call gives back the probe permit that the half-open breaker waits for. -/
def Inner.CancelsProbe (inner : Inner) (call : Call) : Prop :=
  inner.state = .halfOpen ∧ call = .cancel ⟨inner.generation, true⟩

instance (inner : Inner) (call : Call) : Decidable (inner.CancelsProbe call) :=
  inferInstanceAs (Decidable (_ ∧ _))

/-- The call reports an outcome with the permit that the closed breaker hands out. -/
def Inner.Counts (inner : Inner) (call : Call) (failed : Bool) : Prop :=
  inner.state = .closed ∧ call = .record ⟨inner.generation, false⟩ failed

inductive Performs (breaker : Breaker) (inner : Inner) (now : Nat) :
    Call → Option BreakerTransition → Inner → Prop
  | idle {call : Call} (hcancel : ¬ inner.CancelsProbe call) (hcount : ∀ failed, ¬ inner.Counts call failed) :
      Performs breaker inner now call none inner
  | probeStarted (hs : inner.state = .opened) (hc : breaker.cooldown ≤ inner.openedAt.elim 0 (now - ·)) :
      Performs breaker inner now .tryAdmit (some .probeStarted)
        { inner with state := .halfOpen, generation := nextGeneration inner.generation }
  | probeFailed (hs : inner.state = .halfOpen) :
      Performs breaker inner now (.record ⟨inner.generation, true⟩ true) (some .opened)
        { inner with state := .opened, openedAt := some now, generation := nextGeneration inner.generation }
  | probeSucceeded (hs : inner.state = .halfOpen) :
      Performs breaker inner now (.record ⟨inner.generation, true⟩ false) (some .closed)
        ⟨.closed, 0, none, nextGeneration inner.generation⟩
  | tripped (hs : inner.state = .closed) (ht : breaker.failureThreshold ≤ inner.consecutiveFailures + 1) :
      Performs breaker inner now (.record ⟨inner.generation, false⟩ true) (some .opened)
        ⟨.opened, inner.consecutiveFailures + 1, some now, nextGeneration inner.generation⟩
  | counted (failed : Bool) (hs : inner.state = .closed)
      (ht : failed = true → inner.consecutiveFailures + 1 < breaker.failureThreshold) :
      Performs breaker inner now (.record ⟨inner.generation, false⟩ failed) none
        { inner with consecutiveFailures := if failed then inner.consecutiveFailures + 1 else 0 }
  | cancelled (hs : inner.state = .halfOpen) :
      Performs breaker inner now (.cancel ⟨inner.generation, true⟩) none
        { inner with state := .opened, generation := nextGeneration inner.generation }

section Performs
variable (breaker : Breaker) (inner : Inner) (now : Nat)

private theorem performs_tryAdmit :
    Performs breaker inner now .tryAdmit (perform breaker inner now .tryAdmit).1
      (perform breaker inner now .tryAdmit).2 := by
  have idle : Performs breaker inner now .tryAdmit none inner := by
    refine .idle ?_ ?_
    · rintro ⟨_, h⟩
      cases h
    · rintro failed ⟨_, h⟩
      cases h
  rcases tryAdmit_cases breaker inner now with ⟨_, ha⟩ | ⟨hs, hc, ha⟩ | ⟨_, _, _, ha⟩
  · simp only [perform, ha]
    exact idle
  · simp only [perform, ha]
    exact .probeStarted hs hc
  · simp only [perform, ha]
    exact idle

private theorem performs_record (permit : BreakerPermit) (failed : Bool) :
    Performs breaker inner now (.record permit failed) (record breaker inner now permit failed).1
      (record breaker inner now permit failed).2 := by
  by_cases hh : inner.Honours permit
  · obtain ⟨generation, probe⟩ := permit
    obtain ⟨hg, hs⟩ := hh
    cases hg
    cases probe with
    | true =>
      have hs : inner.state = .halfOpen := hs
      cases failed with
      | true => simpa [record, hs] using (.probeFailed hs : Performs breaker inner now _ _ _)
      | false => simpa [record, hs] using (.probeSucceeded hs : Performs breaker inner now _ _ _)
    | false =>
      have hs : inner.state = .closed := hs
      cases failed with
      | true =>
        by_cases ht : breaker.failureThreshold ≤ inner.consecutiveFailures + 1
        · simpa [record, hs, ht] using (.tripped hs ht : Performs breaker inner now _ _ _)
        · have hc : Performs breaker inner now _ _ _ := .counted true hs fun _ => not_le.mp ht
          simpa [record, hs, ht] using hc
      | false =>
        have hc : Performs breaker inner now _ _ _ := .counted false hs (by simp)
        simpa [record, hs] using hc
  · rw [record_of_not_honours hh]
    refine .idle ?_ ?_
    · rintro ⟨_, h⟩
      cases h
    · rintro outcome ⟨hs, h⟩
      cases h
      exact hh ⟨rfl, hs⟩

private theorem performs_cancel (permit : BreakerPermit) :
    Performs breaker inner now (.cancel permit) none (cancel inner permit) := by
  rcases cancel_cases inner permit with ⟨hh, hp, hc⟩ | ⟨hn, hc⟩
  · obtain ⟨generation, probe⟩ := permit
    cases hp
    cases hh.1
    rw [hc]
    exact .cancelled hh.2
  · rw [hc]
    refine .idle ?_ ?_
    · rintro ⟨hs, h⟩
      cases h
      exact hn ⟨⟨rfl, hs⟩, rfl⟩
    · rintro failed ⟨_, h⟩
      cases h

theorem performs (call : Call) :
    Performs breaker inner now call (perform breaker inner now call).1 (perform breaker inner now call).2 := by
  cases call with
  | tryAdmit => exact performs_tryAdmit breaker inner now
  | record permit failed => exact performs_record breaker inner now permit failed
  | cancel permit => exact performs_cancel breaker inner now permit

end Performs

/-- Only a cancelled probe changes the state without a report. -/
theorem Performs.state_eq {breaker : Breaker} {inner next : Inner} {now : Nat} {call : Call}
    {transition : Option BreakerTransition} (h : Performs breaker inner now call transition next)
    (hc : ¬ inner.CancelsProbe call) : next.state = transition.elim inner.state BreakerTransition.target := by
  cases h with
  | cancelled hs => exact absurd ⟨hs, rfl⟩ hc
  | _ => rfl

structure Watched where
  world : World
  /-- The value last written by emit_transition. -/
  gauge : Nat
  /-- The time of the call that last returned Opened. -/
  lastOpened : Option Nat
  /-- The outcomes reported with permits of the current generation since the
  breaker last became closed. -/
  outcomes : List Bool
  deriving DecidableEq, Repr

/-- The calls of the history keep the permits that they issue. -/
def World.perform (breaker : Breaker) (w : World) : Call → World
  | .tryAdmit => w.tryAdmit breaker
  | call => w.update (Breaker.perform breaker w.inner w.clock call).2

namespace Watched

def new : Watched := ⟨.new, 0, none, []⟩

/-- The outcomes after a call: becoming closed starts a new sequence. -/
def outcomesAfter (inner next : Inner) (outcomes : List Bool) (call : Call) : List Bool :=
  if inner.state ≠ .closed ∧ next.state = .closed then []
  else match call with
    | .record permit failed =>
      if inner.state = .closed ∧ permit = ⟨inner.generation, false⟩ then outcomes ++ [failed] else outcomes
    | _ => outcomes

/-- One call whose transition, if it returns one, is passed to emit_transition at once. -/
def step (breaker : Breaker) (m : Watched) (e : Timed) : Watched :=
  let transition := (Breaker.perform breaker m.world.inner e.now e.call).1
  let next := (Breaker.perform breaker m.world.inner e.now e.call).2
  { world := { m.world with clock := e.now }.perform breaker e.call
    gauge := transition.elim m.gauge emitTransition
    lastOpened := if transition = some .opened then some e.now else m.lastOpened
    outcomes := outcomesAfter m.world.inner next m.outcomes e.call }

def run (breaker : Breaker) (calls : List Timed) : Watched := calls.foldl (step breaker) new

end Watched

section Run
variable (breaker : Breaker)

private theorem World.perform_inner (w : World) (call : Call) :
    (w.perform breaker call).inner = (Breaker.perform breaker w.inner w.clock call).2 := by
  cases call with
  | tryAdmit =>
    rcases tryAdmit_cases breaker w.inner w.clock with ⟨hs, ha⟩ | ⟨hs, _, ha⟩ | ⟨_, _, _, ha⟩
    · simp [World.perform, World.tryAdmit, Breaker.perform, ha, World.update, World.issue, hs]
    · simp [World.perform, World.tryAdmit, Breaker.perform, ha, World.update, World.issue, hs]
    · simp [World.perform, World.tryAdmit, Breaker.perform, ha, World.update]
  | record permit failed => rfl
  | cancel permit => rfl

@[simp] theorem Watched.step_inner (m : Watched) (e : Timed) :
    (m.step breaker e).world.inner = (perform breaker m.world.inner e.now e.call).2 :=
  World.perform_inner breaker _ e.call

private theorem Watched.run_concat (calls : List Timed) (e : Timed) :
    run breaker (calls ++ [e]) = (run breaker calls).step breaker e := by
  rw [run, List.foldl_append]
  rfl

/-- What one call preserves, a whole run preserves. -/
theorem Watched.run_induction {I : Watched → Prop} (hnew : I .new)
    (hstep : ∀ m e, I m → I (m.step breaker e)) (calls : List Timed) : I (run breaker calls) := by
  induction calls using List.reverseRecOn with
  | nil => exact hnew
  | append_singleton calls e ih =>
    rw [run_concat]
    exact hstep _ e ih

def Watched.Shown (m : Watched) : Prop := m.gauge = m.world.inner.state.gauge

instance (m : Watched) : Decidable m.Shown := inferInstanceAs (Decidable (_ = _))

/-- From a state that is shown correctly, the next one is unless a probe is cancelled. -/
theorem Watched.shown_step {m : Watched} (h : m.Shown) (e : Timed) :
    (m.step breaker e).Shown ↔ ¬ m.world.inner.CancelsProbe e.call := by
  have hp := performs breaker m.world.inner e.now e.call
  rw [Shown, step_inner]
  constructor
  · rintro hshown ⟨hs, hcall⟩
    -- the gauge still says half-open, but the breaker is open again
    have hg : (m.step breaker e).gauge = 1 := by
      simp only [step, hcall, perform, Option.elim]
      rw [h, hs]
      rfl
    have ho : (perform breaker m.world.inner e.now e.call).2.state = .opened := by
      simp [hcall, perform, cancel, hs]
    rw [hg, ho] at hshown
    cases hshown
  · intro hc
    rw [hp.state_eq hc]
    change (perform breaker m.world.inner e.now e.call).1.elim m.gauge emitTransition = _
    cases (perform breaker m.world.inner e.now e.call).1 with
    | none => exact h
    | some transition => exact emitTransition_eq transition

/-- Every state of the run is shown correctly exactly if no call of it cancels
the probe of the half-open breaker. -/
theorem gauge_shows_state_iff (calls : List Timed) :
    (∀ before, before <+: calls → (Watched.run breaker before).Shown) ↔
      ∀ before e, before ++ [e] <+: calls →
        ¬ (Watched.run breaker before).world.inner.CancelsProbe e.call := by
  constructor
  · intro h before e hpre
    have hb : (Watched.run breaker before).Shown := h before ((List.prefix_append _ _).trans hpre)
    have ha := h _ hpre
    rw [Watched.run_concat] at ha
    exact (Watched.shown_step breaker hb e).mp ha
  · intro h before
    induction before using List.reverseRecOn with
    | nil => exact fun _ => rfl
    | append_singleton before e ih =>
      intro hpre
      rw [Watched.run_concat]
      exact (Watched.shown_step breaker (ih ((List.prefix_append _ _).trans hpre)) e).mpr (h before e hpre)

/-- One failure opens a breaker with threshold one; after the cooldown the probe
is admitted and cancelled. The breaker is open, the gauge still shows half-open. -/
theorem cancelled_probe_not_shown :
    (Watched.run ⟨1, 500⟩ [⟨0, .tryAdmit⟩, ⟨0, .record ⟨0, false⟩ true⟩, ⟨500, .tryAdmit⟩,
      ⟨600, .cancel ⟨2, true⟩⟩]).world.inner.state = .opened ∧
    (Watched.run ⟨1, 500⟩ [⟨0, .tryAdmit⟩, ⟨0, .record ⟨0, false⟩ true⟩, ⟨500, .tryAdmit⟩,
      ⟨600, .cancel ⟨2, true⟩⟩]).gauge = 1 := by
  decide

end Run

section RetryAfter
variable {breaker : Breaker}

def Watched.admission (breaker : Breaker) (calls : List Timed) (now : Nat) : Except Nat BreakerAdmission :=
  (tryAdmit breaker (run breaker calls).world.inner now).1

/-- Rounding up: no shorter number of seconds would do, and this one does until it saturates. -/
theorem secondsCeil_spec {duration : Nat} (h : 0 < duration) :
    1 ≤ secondsCeil duration ∧ (secondsCeil duration - 1) * nanosPerSec < duration ∧
      (duration ≤ secondsCeil duration * nanosPerSec ∨ Instant.limit ≤ secondsCeil duration * nanosPerSec) := by
  by_cases hsub : Duration.subsecNanos duration > 0
  · rw [secondsCeil, if_pos hsub]
    simp only [Duration.asSecs, Duration.subsecNanos, nanosPerSec, Instant.limit] at hsub ⊢
    omega
  · rw [secondsCeil, if_neg hsub]
    simp only [Duration.asSecs, Duration.subsecNanos, nanosPerSec, Instant.limit] at hsub ⊢
    omega

/-- Outside the closed state the breaker holds the time of the last Opened. -/
def Watched.Stamped (m : Watched) : Prop :=
  m.world.inner.state ≠ .closed → m.lastOpened.isSome ∧ m.world.inner.openedAt = m.lastOpened

private theorem Watched.stamped_step {m : Watched} (h : m.Stamped) (e : Timed) : (m.step breaker e).Stamped := by
  obtain ⟨now, call⟩ := e
  have hp := performs breaker m.world.inner now call
  rw [Stamped, step_inner]
  simp only [step]
  generalize (perform breaker m.world.inner now call).1 = transition at hp ⊢
  generalize (perform breaker m.world.inner now call).2 = next at hp ⊢
  cases hp with
  | idle => exact h
  | probeStarted hs => exact fun _ => h (by rw [hs]; decide)
  | probeFailed => exact fun _ => ⟨rfl, rfl⟩
  | probeSucceeded => exact fun hn => absurd rfl hn
  | tripped => exact fun _ => ⟨rfl, rfl⟩
  | counted failed hs => exact fun hn => absurd hs hn
  | cancelled hs => exact fun _ => h (by rw [hs]; decide)

private theorem Watched.stamped_run (calls : List Timed) : (run breaker calls).Stamped :=
  run_induction (I := Stamped) breaker (fun hn => absurd rfl hn) (fun _ e h => stamped_step h e) calls

/-- The time of the last Opened is the time of one of the calls. -/
theorem Watched.lastOpened_mem (calls : List Timed) {opened : Nat} (h : (run breaker calls).lastOpened = some opened) :
    ∃ e ∈ calls, e.now = opened := by
  induction calls using List.reverseRecOn with
  | nil => cases h
  | append_singleton calls e ih =>
    rw [run_concat] at h
    simp only [step] at h
    split at h
    · cases h
      exact ⟨e, by simp, rfl⟩
    · obtain ⟨e', he', hnow⟩ := ih h
      exact ⟨e', List.mem_append_left _ he', hnow⟩

/-- An open breaker refuses until the cooldown since the last Opened is over. -/
theorem Watched.admission_of_opened {calls : List Timed} {opened : Nat}
    (hs : (run breaker calls).world.inner.state = .opened) (ho : (run breaker calls).lastOpened = some opened)
    (now : Nat) :
    admission breaker calls now = if breaker.cooldown ≤ now - opened
      then .ok ⟨⟨nextGeneration (run breaker calls).world.inner.generation, true⟩, some .probeStarted⟩
      else .error (secondsCeil (breaker.cooldown - (now - opened))) := by
  have hat := (stamped_run calls (by rw [hs]; decide)).2
  simp only [admission, tryAdmit, hs, hat, ho, Option.elim]
  split <;> rfl

/-- A refused admission changes nothing that a later one depends on. -/
theorem Watched.run_refused {calls : List Timed} {now s : Nat} (h : admission breaker calls now = .error s) :
    (run breaker (calls ++ [⟨now, .tryAdmit⟩])).world.inner = (run breaker calls).world.inner := by
  rw [run_concat, step_inner]
  rw [admission] at h
  simp only [perform]
  rcases tryAdmit_cases breaker (run breaker calls).world.inner now with ⟨_, ha⟩ | ⟨_, _, ha⟩ | ⟨_, _, _, ha⟩
  · rw [ha]
  · rw [ha] at h
    cases h
  · rw [ha]

/-- The Retry-After of an open breaker: waiting for it suffices, waiting a second
less does not, and it is measured from the last Opened, which a failed probe
moves and a cancelled one does not. -/
theorem tryAdmit_retryAfter_tight (breaker : Breaker) (calls : List Timed) (t s : Nat)
    (hclock : NonDecreasing (calls ++ [⟨t, .tryAdmit⟩]))
    (hopen : (Watched.run breaker calls).world.inner.state = .opened)
    (herr : Watched.admission breaker calls t = .error s) :
    1 ≤ s ∧
    (∀ t', t + s * nanosPerSec ≤ t' → t' < Instant.limit → ∃ generation,
      Watched.admission breaker (calls ++ [⟨t, .tryAdmit⟩]) t' = .ok ⟨⟨generation, true⟩, some .probeStarted⟩) ∧
    (2 ≤ s → ∀ t' ≤ t + (s - 1) * nanosPerSec, ∃ s',
      Watched.admission breaker (calls ++ [⟨t, .tryAdmit⟩]) t' = .error s') ∧
    (∃ opened ≤ t, (Watched.run breaker calls).lastOpened = some opened ∧
      s = secondsCeil (opened + breaker.cooldown - t)) ∧
    (∀ before now, (Watched.run breaker before).world.inner.state = .halfOpen → ∀ permit,
      permit = ⟨(Watched.run breaker before).world.inner.generation, true⟩ →
      (Watched.run breaker (before ++ [⟨now, .cancel permit⟩])).world.inner.state = .opened ∧
      (Watched.run breaker (before ++ [⟨now, .cancel permit⟩])).lastOpened = (Watched.run breaker before).lastOpened ∧
      (Watched.run breaker (before ++ [⟨now, .record permit true⟩])).world.inner.state = .opened ∧
      (Watched.run breaker (before ++ [⟨now, .record permit true⟩])).lastOpened = some now) := by
  obtain ⟨hsome, _⟩ := Watched.stamped_run calls (by rw [hopen]; decide)
  obtain ⟨opened, ho⟩ := Option.isSome_iff_exists.mp hsome
  have hle : opened ≤ t := by
    obtain ⟨e, he, rfl⟩ := Watched.lastOpened_mem calls ho
    exact (List.pairwise_append.mp hclock).2.2 e he _ (List.mem_singleton_self _)
  have hadm := Watched.admission_of_opened hopen ho
  have hlater (t' : Nat) : Watched.admission breaker (calls ++ [⟨t, .tryAdmit⟩]) t' =
      Watched.admission breaker calls t' := by
    rw [Watched.admission, Watched.run_refused herr, Watched.admission]
  rw [hadm t] at herr
  split at herr
  · cases herr
  rename_i hwait
  injection herr with hs
  obtain ⟨hone, hshort, hlong⟩ := secondsCeil_spec (Nat.sub_pos_of_lt (not_le.mp hwait))
  rw [hs] at hone hshort hlong
  refine ⟨hone, ?_, ?_, ⟨opened, hle, ho, ?_⟩, ?_⟩
  · intro t' ht' hend
    have hover : breaker.cooldown ≤ t' - opened := by omega
    exact ⟨_, by rw [hlater, hadm, if_pos hover]⟩
  · intro _ t' ht'
    have hunder : ¬ breaker.cooldown ≤ t' - opened := by omega
    exact ⟨_, by rw [hlater, hadm, if_neg hunder]⟩
  · rw [← hs]
    congr 1
    omega
  · rintro before now hhalf permit rfl
    simp only [Watched.run_concat, Watched.step_inner]
    simp [Watched.step, perform, cancel, record, hhalf]

/-- A probe fails after 2 s and so restarts the cooldown of 1.5 s: 200 ms later
the advice is to wait for two seconds, and after one second admission is still
refused. -/
theorem tryAdmit_retryAfter_tight_failed_probe :
    Watched.admission ⟨1, 1500000000⟩ [⟨0, .record ⟨0, false⟩ true⟩, ⟨2000000000, .tryAdmit⟩,
      ⟨2000000000, .record ⟨2, true⟩ true⟩] 2200000000 = .error 2 ∧
    ∃ s', Watched.admission ⟨1, 1500000000⟩ ([⟨0, .record ⟨0, false⟩ true⟩, ⟨2000000000, .tryAdmit⟩,
      ⟨2000000000, .record ⟨2, true⟩ true⟩] ++ [⟨2200000000, .tryAdmit⟩]) 3200000000 = .error s' :=
  ⟨by decide, (tryAdmit_retryAfter_tight ⟨1, 1500000000⟩ _ 2200000000 2 (by decide) (by decide)
    (by decide)).2.2.1 (by decide) 3200000000 (by decide)⟩

end RetryAfter
end Srh.Domain.Breaker
