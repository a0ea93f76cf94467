import Srh.Domain.BreakerReport
import Mathlib.Data.List.DropRight

/-! The failure counter of a closed breaker against the history of outcomes that
were reported to it. -/
namespace Srh.Domain.Breaker
open Srh.Lib

def failureRun (outcomes : List Bool) : Nat := (outcomes.rtakeWhile id).length

@[simp] theorem failureRun_concat (outcomes : List Bool) (failed : Bool) :
    failureRun (outcomes ++ [failed]) = if failed then failureRun outcomes + 1 else 0 := by
  rw [failureRun, List.rtakeWhile_concat]
  cases failed with
  | true => simp [failureRun]
  | false => rfl

/-- A call that keeps the generation keeps the state. -/
theorem Performs.state_of_generation {breaker : Breaker} {inner next : Inner} {now : Nat} {call : Call}
    {transition : Option BreakerTransition} (h : Performs breaker inner now call transition next)
    (hg : next.generation = inner.generation) : next.state = inner.state := by
  cases h with
  | idle | counted => rfl
  | probeStarted | probeFailed | probeSucceeded | tripped | cancelled => exact absurd hg (nextGeneration_ne _)

namespace Watched
variable {breaker : Breaker} {m : Watched}

/-- A call that changes nothing adds no outcome. -/
theorem outcomesAfter_idle {inner : Inner} {call : Call} (hcount : ∀ failed, ¬ inner.Counts call failed)
    (outcomes : List Bool) : outcomesAfter inner inner outcomes call = outcomes := by
  have hsame : ¬ (inner.state ≠ .closed ∧ inner.state = .closed) := fun h => h.1 h.2
  cases call with
  | tryAdmit => exact if_neg hsame
  | cancel permit => exact if_neg hsame
  | record permit failed =>
    have hno : ¬ (inner.state = .closed ∧ permit = ⟨inner.generation, false⟩) := by
      rintro ⟨hs, rfl⟩
      exact hcount failed ⟨hs, rfl⟩
    exact (if_neg hsame).trans (if_neg hno)

/-- While the breaker is closed, its counter is the length of the final run of failures. -/
def Counted (m : Watched) : Prop :=
  m.world.inner.state = .closed → m.world.inner.consecutiveFailures = failureRun m.outcomes

private theorem counted_step (h : m.Counted) (e : Timed) : (m.step breaker e).Counted := by
  obtain ⟨now, call⟩ := e
  have hp := performs breaker m.world.inner now call
  rw [Counted, step_inner]
  simp only [step]
  generalize (perform breaker m.world.inner now call).2 = next at hp ⊢
  generalize (perform breaker m.world.inner now call).1 = transition at hp
  intro hclosed
  cases hp with
  | idle _ hcount =>
    rw [outcomesAfter_idle hcount]
    exact h hclosed
  | probeSucceeded hs =>
    simp only [outcomesAfter, hs]
    rfl
  | counted failed hs => simp [outcomesAfter, hs, h hs]
  | probeStarted | probeFailed | tripped | cancelled => cases hclosed

private theorem counted_run (calls : List Timed) : (run breaker calls).Counted :=
  run_induction (I := Counted) breaker (fun _ => rfl) (fun _ e h => counted_step h e) calls

/-- The history of issued permits stays consistent whatever permits are used. -/
theorem consistent_step (ht : 0 < breaker.failureThreshold) (h : Consistent breaker m.world) (e : Timed) :
    Consistent breaker (m.step breaker e).world := by
  have h' : Consistent breaker { m.world with clock := e.now } := ⟨h.valid, h.generation, h.issued, h.halfOpen⟩
  simp only [step]
  cases e.call with
  | tryAdmit => exact h'.tryAdmit
  | record permit failed => exact h'.record ht permit failed
  | cancel permit => exact h'.cancel permit

def NoProbe (w : World) : Prop :=
  w.inner.state = .closed → ∀ p ∈ w.issued, p.change = w.changes → p.permit.probe = false

private theorem noProbe_update {w : World} {inner : Inner} (hc : Consistent breaker w) (h : NoProbe w)
    (hg : inner.generation = w.inner.generation → inner.state = w.inner.state) : NoProbe (w.update inner) := by
  intro hs p hp hchange
  simp only [World.update] at hs hp hchange
  by_cases hsame : inner.generation = w.inner.generation
  · rw [if_pos hsame] at hchange
    exact h ((hg hsame).symm.trans hs) p hp hchange
  · -- no permit of the new generation has been issued yet
    have := (hc.issued p hp).2
    rw [if_neg hsame] at hchange
    omega

private theorem noProbe_tryAdmit {w : World} (h : NoProbe w) : NoProbe (w.tryAdmit breaker) := by
  intro hs p hp hchange
  rcases tryAdmit_cases breaker w.inner w.clock with ⟨hcl, ha⟩ | ⟨ho, _, ha⟩ | ⟨_, _, _, ha⟩
  · simp only [World.tryAdmit, ha, World.update, World.issue, hcl, reduceCtorEq, and_false, if_false, if_true,
      List.mem_append, List.mem_singleton] at hs hp hchange
    rcases hp with hp | rfl
    · exact h hcl p hp hchange
    · rfl
  · simp [World.tryAdmit, ha, World.update, World.issue, ho] at hs
  · simp only [World.tryAdmit, ha, World.update, if_true] at hs hp hchange
    exact h hs p hp hchange

private theorem noProbe_step (hc : Consistent breaker m.world) (h : NoProbe m.world) (e : Timed) :
    NoProbe (m.step breaker e).world := by
  obtain ⟨now, call⟩ := e
  have hc' : Consistent breaker { m.world with clock := now } := ⟨hc.valid, hc.generation, hc.issued, hc.halfOpen⟩
  have hp := performs breaker m.world.inner now call
  simp only [step]
  cases call with
  | tryAdmit => exact noProbe_tryAdmit h
  | record permit failed => exact noProbe_update hc' h hp.state_of_generation
  | cancel permit => exact noProbe_update hc' h hp.state_of_generation

private theorem noProbe_run (ht : 0 < breaker.failureThreshold) (calls : List Timed) :
    Consistent breaker (run breaker calls).world ∧ NoProbe (run breaker calls).world := by
  refine run_induction (I := fun m => Consistent breaker m.world ∧ NoProbe m.world) breaker
    ⟨consistent_new ht, ?_⟩ ?_ calls
  · intro _ p hp
    cases hp
  · intro m e h
    exact ⟨consistent_step ht h.1 e, noProbe_step h.1 h.2 e⟩

/-- Before the generation counter wraps, the permits that a closed breaker counts
are the ones issued in its current generation. -/
theorem counts_iff_change (hc : Consistent breaker m.world) (hn : NoProbe m.world) (hw : m.world.changes < 2 ^ 64)
    (hs : m.world.inner.state = .closed) {p : Issued} (hp : p ∈ m.world.issued) :
    p.permit = ⟨m.world.inner.generation, false⟩ ↔ p.change = m.world.changes := by
  constructor
  · intro hperm
    refine hc.change_of_honours hw hp ?_
    rw [hperm]
    exact ⟨rfl, hs⟩
  · intro hchange
    have hgen := (hc.issued p hp).1
    rw [hchange, ← hc.generation] at hgen
    have hprobe := hn hs p hp hchange
    obtain ⟨⟨generation, probe⟩, change⟩ := p
    cases hgen
    cases hprobe
    rfl

end Watched

structure CountsFailures (breaker : Breaker) (m : Watched) : Prop where
  counter : m.world.inner.state = .closed → m.world.inner.consecutiveFailures = failureRun m.outcomes
  opens : ∀ now permit failed, permit.probe = false →
    ((record breaker m.world.inner now permit failed).1 = some .opened ↔
      m.world.inner.state = .closed ∧ permit.generation = m.world.inner.generation ∧
        failureRun (m.outcomes ++ [failed]) = breaker.failureThreshold)
  /-- A permit whose generation is another number than the current one has no part in the sequence. -/
  other_generation : ∀ now permit failed, m.world.inner.state = .closed →
    permit.generation ≠ m.world.inner.generation →
    (m.step breaker ⟨now, .record permit failed⟩).outcomes = m.outcomes
  /-- Of the permits that the breaker issued, exactly those issued since its last generation change have. -/
  earlier_generation : m.world.changes < 2 ^ 64 → m.world.inner.state = .closed → ∀ p ∈ m.world.issued,
    ∀ now failed, (m.step breaker ⟨now, .record p.permit failed⟩).outcomes =
      if p.change = m.world.changes then m.outcomes ++ [failed] else m.outcomes

/-- The outcomes after a report to a closed breaker. -/
theorem Watched.outcomes_record {breaker : Breaker} {m : Watched} (hs : m.world.inner.state = .closed) (now : Nat)
    (permit : BreakerPermit) (failed : Bool) :
    (m.step breaker ⟨now, .record permit failed⟩).outcomes =
      if permit = ⟨m.world.inner.generation, false⟩ then m.outcomes ++ [failed] else m.outcomes := by
  simp [Watched.step, Watched.outcomesAfter, hs]

/-- What a non-probe outcome has to be for the breaker to open. -/
theorem Watched.opens_iff {breaker : Breaker} {m : Watched} (ht : 0 < breaker.failureThreshold) (hm : m.Counted)
    (hv : Valid breaker m.world.inner) (now : Nat) (permit : BreakerPermit) (failed : Bool)
    (hprobe : permit.probe = false) :
    (record breaker m.world.inner now permit failed).1 = some .opened ↔
      m.world.inner.state = .closed ∧ permit.generation = m.world.inner.generation ∧
        failureRun (m.outcomes ++ [failed]) = breaker.failureThreshold := by
  have hp := performs breaker m.world.inner now (.record permit failed)
  simp only [perform] at hp
  generalize (record breaker m.world.inner now permit failed).1 = transition at hp ⊢
  generalize (record breaker m.world.inner now permit failed).2 = next at hp
  rw [failureRun_concat]
  cases hp with
  | idle _ hcount =>
    refine ⟨(by cases ·), ?_⟩
    rintro ⟨hs, hg, _⟩
    obtain ⟨generation, probe⟩ := permit
    cases hprobe
    cases hg
    exact absurd ⟨hs, rfl⟩ (hcount failed)
  | probeFailed | probeSucceeded => cases hprobe
  | tripped hs hreach =>
    have hbelow := (hv.closed hs).2
    rw [hm hs] at hbelow hreach
    refine ⟨fun _ => ⟨hs, rfl, ?_⟩, fun _ => rfl⟩
    rw [if_pos rfl]
    omega
  | counted _ hs hbelow =>
    refine ⟨(by cases ·), ?_⟩
    rintro ⟨_, _, hreach⟩
    rw [hm hs] at hbelow
    cases failed with
    | true =>
      have := hbelow rfl
      rw [if_pos rfl] at hreach
      omega
    | false =>
      rw [if_neg Bool.false_ne_true] at hreach
      omega

/-- The breaker opens exactly on consecutive failures, whatever permits the calls use. -/
theorem countsFailures_run (breaker : Breaker) (calls : List Timed) (ht : 0 < breaker.failureThreshold) :
    CountsFailures breaker (Watched.run breaker calls) := by
  obtain ⟨hc, hn⟩ := Watched.noProbe_run ht calls
  refine ⟨Watched.counted_run calls, Watched.opens_iff ht (Watched.counted_run calls) hc.valid, ?_, ?_⟩
  · intro now permit failed hs hg
    rw [Watched.outcomes_record hs, if_neg]
    rintro rfl
    exact hg rfl
  · intro hw hs p hp now failed
    rw [Watched.outcomes_record hs]
    simp only [Watched.counts_iff_change hc hn hw hs hp]

/-- With a threshold of two, a success between two failures keeps the breaker
closed, and so does the failure of a permit from before it was last open. -/
theorem countsFailures_run_stale :
    (Watched.run ⟨2, 500⟩ [⟨0, .tryAdmit⟩, ⟨0, .record ⟨0, false⟩ true⟩, ⟨0, .record ⟨0, false⟩ true⟩,
      ⟨500, .tryAdmit⟩, ⟨500, .record ⟨2, true⟩ false⟩, ⟨600, .record ⟨3, false⟩ true⟩,
      ⟨700, .record ⟨0, false⟩ true⟩]).outcomes = [true] ∧
    CountsFailures ⟨2, 500⟩ (Watched.run ⟨2, 500⟩ [⟨0, .tryAdmit⟩, ⟨0, .record ⟨0, false⟩ true⟩,
      ⟨0, .record ⟨0, false⟩ true⟩, ⟨500, .tryAdmit⟩, ⟨500, .record ⟨2, true⟩ false⟩,
      ⟨600, .record ⟨3, false⟩ true⟩, ⟨700, .record ⟨0, false⟩ true⟩]) :=
  ⟨by decide, countsFailures_run _ _ (by decide)⟩

end Srh.Domain.Breaker
