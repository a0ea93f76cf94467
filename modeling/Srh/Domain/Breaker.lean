import Srh.Lib.Duration
import Mathlib.Tactic.Cases

/-! The circuit breaker of domain/breaker.rs. Each operation is one critical
section on the guarded fields; the clock is read inside it. -/
namespace Srh.Domain
open Srh.Lib

structure Breaker where
  failureThreshold : Nat
  cooldown : Nat
  deriving DecidableEq, Repr

namespace Breaker

inductive BreakerState where
  | closed
  | halfOpen
  | opened
  deriving DecidableEq, Repr

structure BreakerPermit where
  generation : Nat
  probe : Bool
  deriving DecidableEq, Repr

inductive BreakerTransition where
  | opened
  | probeStarted
  | closed
  deriving DecidableEq, Repr

structure BreakerAdmission where
  permit : BreakerPermit
  transition : Option BreakerTransition
  deriving DecidableEq, Repr

structure Inner where
  state : BreakerState
  consecutiveFailures : Nat
  openedAt : Option Nat
  generation : Nat
  deriving DecidableEq, Repr

def Inner.new : Inner := ⟨.closed, 0, none, 0⟩

def nextGeneration (generation : Nat) : Nat := (generation + 1) % 2 ^ 64

def secondsCeil (duration : Nat) : Nat :=
  min (Duration.asSecs duration + if Duration.subsecNanos duration > 0 then 1 else 0) (2 ^ 64 - 1)

section Operations
variable (breaker : Breaker) (inner : Inner) (now : Nat)

/-- Breaker::admit. -/
def tryAdmit : Except Nat BreakerAdmission × Inner :=
  match inner.state with
  | .closed => (.ok ⟨⟨inner.generation, false⟩, none⟩, inner)
  | .halfOpen => (.error (secondsCeil breaker.cooldown), inner)
  | .opened =>
    let elapsed := inner.openedAt.elim 0 (now - ·)
    if elapsed ≥ breaker.cooldown then
      let generation := nextGeneration inner.generation
      (.ok ⟨⟨generation, true⟩, some .probeStarted⟩, { inner with state := .halfOpen, generation := generation })
    else (.error (secondsCeil (breaker.cooldown - elapsed)), inner)

def record (permit : BreakerPermit) (failed : Bool) : Option BreakerTransition × Inner :=
  if permit.generation ≠ inner.generation then (none, inner)
  else if permit.probe then
    if inner.state ≠ .halfOpen then (none, inner)
    else
      let generation := nextGeneration inner.generation
      if failed then
        (some .opened, { inner with state := .opened, openedAt := some now, generation := generation })
      else (some .closed, ⟨.closed, 0, none, generation⟩)
  else if inner.state ≠ .closed then (none, inner)
  else if failed then
    let failures := inner.consecutiveFailures + 1
    if failures ≥ breaker.failureThreshold then
      (some .opened, ⟨.opened, failures, some now, nextGeneration inner.generation⟩)
    else (none, { inner with consecutiveFailures := failures })
  else (none, { inner with consecutiveFailures := 0 })

def cancel (permit : BreakerPermit) : Inner :=
  if !permit.probe then inner
  else if inner.state = .halfOpen ∧ permit.generation = inner.generation then
    { inner with state := .opened, generation := nextGeneration inner.generation }
  else inner

end Operations

/-- The breaker still acts on the permit: it is of the current generation, and
of the kind that the current state hands out. -/
def Inner.Honours (inner : Inner) (permit : BreakerPermit) : Prop :=
  permit.generation = inner.generation ∧ inner.state = if permit.probe then .halfOpen else .closed

/-- The timestamp is set exactly when the breaker is not closed, and a closed
breaker is below its threshold. -/
structure Valid (breaker : Breaker) (inner : Inner) : Prop where
  closed : inner.state = .closed → inner.openedAt = none ∧ inner.consecutiveFailures < breaker.failureThreshold
  not_closed : inner.state ≠ .closed → inner.openedAt.isSome

section Cases
variable {breaker : Breaker} {inner : Inner} {now : Nat} {permit : BreakerPermit}

theorem nextGeneration_mod (n : Nat) : nextGeneration (n % 2 ^ 64) = (n + 1) % 2 ^ 64 := by
  rw [nextGeneration, Nat.mod_add_mod]

theorem nextGeneration_ne (g : Nat) : nextGeneration g ≠ g := by
  simp only [nextGeneration]
  omega

/-- Everything that an admission can do. -/
theorem tryAdmit_cases (breaker : Breaker) (inner : Inner) (now : Nat) :
    (inner.state = .closed ∧ tryAdmit breaker inner now = (.ok ⟨⟨inner.generation, false⟩, none⟩, inner)) ∨
    (inner.state = .opened ∧ breaker.cooldown ≤ inner.openedAt.elim 0 (now - ·) ∧
      tryAdmit breaker inner now = (.ok ⟨⟨nextGeneration inner.generation, true⟩, some .probeStarted⟩,
        { inner with state := .halfOpen, generation := nextGeneration inner.generation })) ∨
    (inner.state ≠ .closed ∧ (inner.state = .opened → inner.openedAt.elim 0 (now - ·) < breaker.cooldown) ∧
      ∃ retryAfter, tryAdmit breaker inner now = (.error retryAfter, inner)) := by
  rw [tryAdmit]
  cases hs : inner.state with
  | closed => exact .inl ⟨rfl, rfl⟩
  | halfOpen => exact .inr (.inr ⟨nofun, nofun, _, rfl⟩)
  | opened =>
    by_cases h : breaker.cooldown ≤ inner.openedAt.elim 0 (now - ·)
    · exact .inr (.inl ⟨rfl, h, if_pos h⟩)
    · exact .inr (.inr ⟨nofun, fun _ => not_le.mp h, _, if_neg h⟩)

theorem tryAdmit_halfOpen (h : inner.state = .halfOpen) (now : Nat) :
    tryAdmit breaker inner now = (.error (secondsCeil breaker.cooldown), inner) := by
  rw [tryAdmit, h]

/-- Everything that an outcome can do. -/
theorem record_cases (breaker : Breaker) (inner : Inner) (now : Nat) (permit : BreakerPermit) (failed : Bool) :
    (¬ inner.Honours permit ∧ record breaker inner now permit failed = (none, inner)) ∨
    (inner.Honours permit ∧ permit.probe = true ∧
      record breaker inner now permit failed = if failed
        then (some .opened,
          { inner with state := .opened, openedAt := some now, generation := nextGeneration inner.generation })
        else (some .closed, ⟨.closed, 0, none, nextGeneration inner.generation⟩)) ∨
    (inner.Honours permit ∧ permit.probe = false ∧ failed = true ∧
      breaker.failureThreshold ≤ inner.consecutiveFailures + 1 ∧
      record breaker inner now permit failed =
        (some .opened, ⟨.opened, inner.consecutiveFailures + 1, some now, nextGeneration inner.generation⟩)) ∨
    (inner.Honours permit ∧ permit.probe = false ∧ ∃ failures,
      (failures = 0 ∨ failures < breaker.failureThreshold) ∧
      record breaker inner now permit failed = (none, { inner with consecutiveFailures := failures })) := by
  rw [record, Inner.Honours]
  by_cases hg : permit.generation = inner.generation
  · rw [if_neg (not_not.mpr hg)]
    cases hp : permit.probe with
    | true =>
      by_cases hs : inner.state = .halfOpen
      · exact .inr (.inl ⟨⟨hg, hs⟩, rfl, by simp [hs]⟩)
      · exact .inl ⟨fun h => hs h.2, by simp [hs]⟩
    | false =>
      by_cases hs : inner.state = .closed
      · cases failed with
        | false => exact .inr (.inr (.inr ⟨⟨hg, hs⟩, rfl, 0, .inl rfl, by simp [hs]⟩))
        | true =>
          by_cases ht : breaker.failureThreshold ≤ inner.consecutiveFailures + 1
          · exact .inr (.inr (.inl ⟨⟨hg, hs⟩, rfl, rfl, ht, by simp [hs, ht]⟩))
          · exact .inr (.inr (.inr ⟨⟨hg, hs⟩, rfl, _, .inr (not_le.mp ht), by simp [hs, ht]⟩))
      · exact .inl ⟨fun h => hs h.2, by simp [hs]⟩
  · exact .inl ⟨fun h => hg h.1, if_pos hg⟩

theorem record_of_not_honours (h : ¬ inner.Honours permit) (breaker : Breaker) (now : Nat) (failed : Bool) :
    record breaker inner now permit failed = (none, inner) := by
  rcases record_cases breaker inner now permit failed with ⟨_, hr⟩ | ⟨hh, _⟩ | ⟨hh, _⟩ | ⟨hh, _⟩
  · exact hr
  all_goals exact absurd hh h

/-- Everything that a cancellation can do. -/
theorem cancel_cases (inner : Inner) (permit : BreakerPermit) :
    (inner.Honours permit ∧ permit.probe = true ∧ cancel inner permit =
      { inner with state := .opened, generation := nextGeneration inner.generation }) ∨
    (¬ (inner.Honours permit ∧ permit.probe = true) ∧ cancel inner permit = inner) := by
  rw [cancel, Inner.Honours]
  cases hp : permit.probe with
  | false => exact .inr ⟨fun h => (nomatch h.2), rfl⟩
  | true =>
    by_cases h : inner.state = .halfOpen ∧ permit.generation = inner.generation
    · exact .inl ⟨⟨h.2, h.1⟩, rfl, by simp [h]⟩
    · exact .inr ⟨fun hh => h ⟨hh.1.2, hh.1.1⟩, by simp only [Bool.not_true, Bool.false_eq_true, if_false, if_neg h]⟩

theorem cancel_of_not_honours (h : ¬ inner.Honours permit) : cancel inner permit = inner := by
  rcases cancel_cases inner permit with ⟨hh, _⟩ | ⟨_, hc⟩
  · exact absurd hh h
  · exact hc

/-- An honoured probe always ends the half-open state. -/
theorem record_probe_state (h : inner.Honours permit) (hp : permit.probe = true) (now : Nat) (failed : Bool) :
    (record breaker inner now permit failed).2.state ≠ .halfOpen := by
  rcases record_cases breaker inner now permit failed with ⟨hn, _⟩ | ⟨_, _, hr⟩ | ⟨_, hq, _⟩ | ⟨_, hq, _⟩
  · exact absurd h hn
  · rw [hr]
    cases failed <;> simp
  all_goals rw [hp] at hq; cases hq

end Cases

section Valid
variable {breaker : Breaker} {inner : Inner}

theorem valid_new (h : 0 < breaker.failureThreshold) : Valid breaker .new :=
  ⟨fun _ => ⟨rfl, h⟩, fun hn => absurd rfl hn⟩

private theorem valid_of_not_closed {inner : Inner} (hs : inner.state ≠ .closed) (ho : inner.openedAt.isSome) :
    Valid breaker inner :=
  ⟨fun hc => absurd hc hs, fun _ => ho⟩

theorem Valid.tryAdmit (h : Valid breaker inner) (now : Nat) : Valid breaker (tryAdmit breaker inner now).2 := by
  rcases tryAdmit_cases breaker inner now with ⟨_, ha⟩ | ⟨hs, _, ha⟩ | ⟨_, _, _, ha⟩
  · rw [ha]; exact h
  · rw [ha]
    exact valid_of_not_closed nofun (h.not_closed (by rw [hs]; nofun))
  · rw [ha]; exact h

theorem Valid.record (h : Valid breaker inner) (ht : 0 < breaker.failureThreshold) (now : Nat)
    (permit : BreakerPermit) (failed : Bool) : Valid breaker (record breaker inner now permit failed).2 := by
  rcases record_cases breaker inner now permit failed with
    ⟨_, hr⟩ | ⟨_, _, hr⟩ | ⟨_, _, _, _, hr⟩ | ⟨hh, hp, failures, hf, hr⟩
  · rw [hr]; exact h
  · rw [hr]
    cases failed with
    | true => exact valid_of_not_closed nofun rfl
    | false => exact ⟨fun _ => ⟨rfl, ht⟩, fun hn => absurd rfl hn⟩
  · rw [hr]; exact valid_of_not_closed nofun rfl
  · have hs : inner.state = .closed := by rw [hh.2, hp]; rfl
    rw [hr]
    refine ⟨fun _ => ⟨(h.closed hs).1, ?_⟩, fun hn => absurd hs hn⟩
    rcases hf with rfl | hf
    · exact ht
    · exact hf

theorem Valid.cancel (h : Valid breaker inner) (permit : BreakerPermit) : Valid breaker (cancel inner permit) := by
  rcases cancel_cases inner permit with ⟨hh, hp, hc⟩ | ⟨_, hc⟩
  · rw [hc]
    refine valid_of_not_closed nofun (h.not_closed ?_)
    rw [hh.2, hp]
    nofun
  · rw [hc]; exact h

end Valid
end Breaker
end Srh.Domain
