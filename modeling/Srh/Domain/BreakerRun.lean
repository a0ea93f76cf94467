import Srh.Lib.Machine
import Srh.Domain.Breaker

/-! Runs of one breaker whose permits may be returned late, more than once and
in any order. The run keeps every permit it issued, with the number of
generation changes at the time, as an immutable history. -/
namespace Srh.Domain.Breaker
open Srh.Lib

structure Issued where
  permit : BreakerPermit
  change : Nat
  deriving DecidableEq, Repr

structure World where
  clock : Nat
  inner : Inner
  /-- How often the generation has changed. -/
  changes : Nat
  issued : List Issued
  /-- The position of the permit whose admission last entered the half-open state. -/
  entered : Option Nat
  deriving DecidableEq, Repr

/-- A permit is named by its position in the history. -/
inductive Event where
  | tick (nanos : Nat)
  | tryAdmit
  | record (permit : Nat) (failed : Bool)
  | cancel (permit : Nat)
  deriving DecidableEq, Repr

namespace World

def new : World := ⟨0, .new, 0, [], none⟩

def update (w : World) (inner : Inner) : World :=
  { w with inner := inner, changes := if inner.generation = w.inner.generation then w.changes else w.changes + 1 }

def issue (w : World) (permit : BreakerPermit) : World := { w with issued := w.issued ++ [⟨permit, w.changes⟩] }

def tryAdmit (breaker : Breaker) (w : World) : World :=
  match Breaker.tryAdmit breaker w.inner w.clock with
  | (.error _, inner) => w.update inner
  | (.ok admission, inner) =>
    let next := (w.update inner).issue admission.permit
    if w.inner.state ≠ .halfOpen ∧ inner.state = .halfOpen then { next with entered := some w.issued.length }
    else next

end World

def machine (breaker : Breaker) : Machine World Event where
  step w
    | .tick nanos => some { w with clock := w.clock + nanos }
    | .tryAdmit => some (w.tryAdmit breaker)
    | .record permit failed =>
      w.issued[permit]?.map fun p => w.update (record breaker w.inner w.clock p.permit failed).2
    | .cancel permit => w.issued[permit]?.map fun p => w.update (cancel w.inner p.permit)

/-- The permit at the given position is the only one of the current generation,
and it is a probe. -/
def Sole (w : World) (i : Nat) : Prop :=
  ∃ p, w.issued[i]? = some p ∧ p.permit = ⟨w.inner.generation, true⟩ ∧
    ∀ j q, w.issued[j]? = some q → q.change = w.changes → j = i

structure Consistent (breaker : Breaker) (w : World) : Prop where
  valid : Valid breaker w.inner
  generation : w.inner.generation = w.changes % 2 ^ 64
  issued : ∀ p ∈ w.issued, p.permit.generation = p.change % 2 ^ 64 ∧ p.change ≤ w.changes
  halfOpen : w.inner.state = .halfOpen → ∃ i, w.entered = some i ∧ Sole w i

section Step
variable {breaker : Breaker} {w : World}

theorem consistent_new (h : 0 < breaker.failureThreshold) : Consistent breaker .new :=
  ⟨valid_new h, rfl, nofun, nofun⟩

/-- A new generation leaves no permit of it behind. -/
theorem Consistent.renew (h : Consistent breaker w) {inner : Inner} (hv : Valid breaker inner)
    (hg : inner.generation = nextGeneration w.inner.generation) (hs : inner.state ≠ .halfOpen) :
    Consistent breaker (w.update inner) := by
  have hne : inner.generation ≠ w.inner.generation := by
    rw [hg]
    exact nextGeneration_ne _
  refine ⟨hv, ?_, ?_, fun hh => absurd hh hs⟩
  · simp only [World.update, if_neg hne]
    rw [hg, h.generation, nextGeneration_mod]
  · intro p hp
    obtain ⟨hp, hle⟩ := h.issued p hp
    simp only [World.update, if_neg hne]
    exact ⟨hp, by omega⟩

/-- Fields other than the generation and the half-open state do not matter. -/
theorem Consistent.keep (h : Consistent breaker w) {inner : Inner} (hv : Valid breaker inner)
    (hg : inner.generation = w.inner.generation) (hs : inner.state = w.inner.state) :
    Consistent breaker (w.update inner) := by
  refine ⟨hv, ?_, ?_, ?_⟩
  · simp only [World.update, if_pos hg]
    rw [hg, h.generation]
  · intro p hp
    simp only [World.update, if_pos hg]
    exact h.issued p hp
  · intro hh
    obtain ⟨i, hi, p, hp, hpg, hsole⟩ := h.halfOpen (hs ▸ hh)
    refine ⟨i, hi, p, hp, ?_, ?_⟩
    · rw [hpg]
      simp only [World.update, hg]
    · simp only [World.update, if_pos hg]
      exact hsole

theorem Consistent.record (h : Consistent breaker w) (ht : 0 < breaker.failureThreshold) (permit : BreakerPermit)
    (failed : Bool) : Consistent breaker (w.update (record breaker w.inner w.clock permit failed).2) := by
  have hv := h.valid.record ht w.clock permit failed
  rcases record_cases breaker w.inner w.clock permit failed with
    ⟨_, hr⟩ | ⟨_, _, hr⟩ | ⟨_, _, _, _, hr⟩ | ⟨_, _, _, _, hr⟩
  · exact h.keep hv (by rw [hr]) (by rw [hr])
  · refine h.renew hv ?_ ?_
    all_goals rw [hr]; cases failed <;> simp
  · exact h.renew hv (by rw [hr]) (by rw [hr]; nofun)
  · exact h.keep hv (by rw [hr]) (by rw [hr])

theorem Consistent.cancel (h : Consistent breaker w) (permit : BreakerPermit) :
    Consistent breaker (w.update (cancel w.inner permit)) := by
  have hv := h.valid.cancel permit
  rcases cancel_cases w.inner permit with ⟨_, _, hc⟩ | ⟨_, hc⟩
  · exact h.renew hv (by rw [hc]) (by rw [hc]; nofun)
  · exact h.keep hv (by rw [hc]) (by rw [hc])

/-- A permit of the current generation joins the history. -/
private theorem Consistent.mem_issue (h : Consistent breaker w) {changes : Nat} {permit : BreakerPermit}
    (hle : w.changes ≤ changes) (hg : permit.generation = changes % 2 ^ 64) :
    ∀ p ∈ w.issued ++ [⟨permit, changes⟩], p.permit.generation = p.change % 2 ^ 64 ∧ p.change ≤ changes := by
  intro p hp
  rcases List.mem_append.mp hp with hp | hp
  · obtain ⟨hp, hp'⟩ := h.issued p hp
    exact ⟨hp, hp'.trans hle⟩
  · rw [List.mem_singleton.mp hp]
    exact ⟨hg, le_rfl⟩

theorem Consistent.tryAdmit (h : Consistent breaker w) : Consistent breaker (w.tryAdmit breaker) := by
  have hv := h.valid.tryAdmit w.clock
  rcases tryAdmit_cases breaker w.inner w.clock with ⟨hs, ha⟩ | ⟨hs, _, ha⟩ | ⟨_, _, _, ha⟩
  · -- a closed breaker issues one more permit of the current generation
    have hw : w.tryAdmit breaker = w.issue ⟨w.inner.generation, false⟩ := by
      simp [World.tryAdmit, ha, World.update, hs]
    rw [hw]
    refine ⟨h.valid, h.generation, h.mem_issue le_rfl h.generation, fun hh => ?_⟩
    cases hs.symm.trans hh
  · -- the probe is the first permit of its generation
    have hne := nextGeneration_ne w.inner.generation
    have hw : w.tryAdmit breaker =
        ⟨w.clock, { w.inner with state := .halfOpen, generation := nextGeneration w.inner.generation },
          w.changes + 1, w.issued ++ [⟨⟨nextGeneration w.inner.generation, true⟩, w.changes + 1⟩],
          some w.issued.length⟩ := by
      simp [World.tryAdmit, ha, World.update, World.issue, hs, hne]
    have hgen : nextGeneration w.inner.generation = (w.changes + 1) % 2 ^ 64 := by
      rw [h.generation, nextGeneration_mod]
    rw [ha] at hv
    rw [hw]
    refine ⟨hv, hgen, h.mem_issue (Nat.le_succ _) hgen, fun _ => ⟨_, rfl, _, List.getElem?_concat_length, rfl, ?_⟩⟩
    intro j q hj hq
    by_contra hne
    have hlt : j < w.issued.length := by
      have := (List.getElem?_eq_some_iff.mp hj).1
      rw [List.length_append, List.length_singleton] at this
      omega
    rw [List.getElem?_append_left hlt] at hj
    have hle := (h.issued q (List.mem_of_getElem? hj)).2
    simp only at hq
    omega
  · have hw : w.tryAdmit breaker = w.update w.inner := by rw [World.tryAdmit, ha]
    rw [hw]
    exact h.keep h.valid rfl rfl

private theorem Consistent.step (h : Consistent breaker w) (ht : 0 < breaker.failureThreshold) {e : Event} {w' : World}
    (hs : (machine breaker).step w e = some w') : Consistent breaker w' := by
  cases e with
  | tick nanos => cases hs; exact ⟨h.valid, h.generation, h.issued, h.halfOpen⟩
  | tryAdmit => cases hs; exact h.tryAdmit
  | record permit failed =>
    obtain ⟨p, _, rfl⟩ := Option.map_eq_some_iff.mp hs
    exact h.record ht p.permit failed
  | cancel permit =>
    obtain ⟨p, _, rfl⟩ := Option.map_eq_some_iff.mp hs
    exact h.cancel p.permit

private theorem consistent_run (ht : 0 < breaker.failureThreshold) {events : List Event}
    (hrun : (machine breaker).run .new events = some w) : Consistent breaker w :=
  Machine.run_invariant (fun _ _ _ h hs => h.step ht hs) hrun (consistent_new ht)

/-- Until the generation counter wraps, a permit is honoured only in the
generation that issued it. -/
theorem Consistent.change_of_honours (h : Consistent breaker w) (hw : w.changes < 2 ^ 64) {p : Issued}
    (hp : p ∈ w.issued) (hh : w.inner.Honours p.permit) : p.change = w.changes := by
  obtain ⟨hg, hle⟩ := h.issued p hp
  have := hh.1
  rw [hg, h.generation, Nat.mod_eq_of_lt hw, Nat.mod_eq_of_lt (by omega)] at this
  exact this

end Step

/-- The permit changes nothing, whatever is reported with it and whenever. -/
def Inert (breaker : Breaker) (inner : Inner) (permit : BreakerPermit) : Prop :=
  (∀ now failed, record breaker inner now permit failed = (none, inner)) ∧ cancel inner permit = inner

structure Sound (breaker : Breaker) (w : World) : Prop where
  closed : w.inner.state = .closed →
    w.inner.openedAt = none ∧ w.inner.consecutiveFailures < breaker.failureThreshold
  not_closed : w.inner.state ≠ .closed → w.inner.openedAt.isSome
  refused : w.inner.state = .halfOpen →
    ∀ now, tryAdmit breaker w.inner now = (.error (secondsCeil breaker.cooldown), w.inner)
  single_probe : w.inner.state = .halfOpen → ∃ i p, w.entered = some i ∧ w.issued[i]? = some p ∧
    p.permit.probe = true ∧ p.change = w.changes ∧
    (∀ now failed, (record breaker w.inner now p.permit failed).2.state ≠ .halfOpen) ∧
    (cancel w.inner p.permit).state ≠ .halfOpen ∧
    ∀ j q, w.issued[j]? = some q → j ≠ i → Inert breaker w.inner q.permit
  stale : ∀ p ∈ w.issued, p.change < w.changes → Inert breaker w.inner p.permit

/-- Half-open exclusivity and stale-permit immunity, in every state that any
sequence of admissions, outcomes and cancellations reaches before the generation
counter wraps. -/
theorem sound_run (breaker : Breaker) (events : List Event) (w : World) (ht : 0 < breaker.failureThreshold)
    (hrun : (machine breaker).run .new events = some w) (hw : w.changes < 2 ^ 64) : Sound breaker w := by
  have h := consistent_run ht hrun
  have inert {p : Issued} (hp : p ∈ w.issued) (hne : p.change ≠ w.changes) : Inert breaker w.inner p.permit := by
    have hn : ¬ w.inner.Honours p.permit := fun hh => hne (h.change_of_honours hw hp hh)
    exact ⟨record_of_not_honours hn breaker, cancel_of_not_honours hn⟩
  refine ⟨h.valid.closed, h.valid.not_closed, tryAdmit_halfOpen, ?_, fun p hp hlt => inert hp hlt.ne⟩
  intro hs
  obtain ⟨i, hi, p, hp, hperm, hsole⟩ := h.halfOpen hs
  have hprobe : p.permit.probe = true := by rw [hperm]
  have hh : w.inner.Honours p.permit := by
    rw [hperm]
    exact ⟨rfl, hs⟩
  refine ⟨i, p, hi, hp, hprobe, h.change_of_honours hw (List.mem_of_getElem? hp) hh,
    record_probe_state hh hprobe, ?_, ?_⟩
  · rcases cancel_cases w.inner p.permit with ⟨_, _, hc⟩ | ⟨hn, _⟩
    · rw [hc]
      nofun
    · exact absurd ⟨hh, hprobe⟩ hn
  · intro j q hj hne
    exact inert (List.mem_of_getElem? hj) fun hc => hne (hsole j q hj hc)

/-- Two failures open the breaker, the cooldown passes, and a probe is admitted
while the two first permits are still out. -/
theorem sound_run_probe :
    (machine ⟨2, 500⟩).run .new
      [.tryAdmit, .tryAdmit, .record 0 true, .record 0 true, .tick 500, .tryAdmit, .record 1 false, .cancel 0] =
        some ⟨500, ⟨.halfOpen, 2, some 0, 2⟩, 2, [⟨⟨0, false⟩, 0⟩, ⟨⟨0, false⟩, 0⟩, ⟨⟨2, true⟩, 2⟩], some 2⟩ ∧
      Sound ⟨2, 500⟩
        ⟨500, ⟨.halfOpen, 2, some 0, 2⟩, 2, [⟨⟨0, false⟩, 0⟩, ⟨⟨0, false⟩, 0⟩, ⟨⟨2, true⟩, 2⟩], some 2⟩ :=
  ⟨by decide, sound_run ⟨2, 500⟩
    [.tryAdmit, .tryAdmit, .record 0 true, .record 0 true, .tick 500, .tryAdmit, .record 1 false, .cancel 0] _ (by decide)
    (by decide) (by decide)⟩

end Srh.Domain.Breaker
