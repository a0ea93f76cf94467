import Srh.Adapters.PoolEntryRule

/-! The half-open probe across the two guards that own it. At every moment the
undecided probe permits held on an entry are exactly the one its breaker waits
for, so the breaker cannot be left half open. -/
namespace Srh.Adapters.PoolManager
open Srh.Lib Srh.Domain Srh.Domain.Breaker

/-- The generation of a probe permit that a guard will still give back. -/
def Resource.probe : Resource → Option Nat
  | .guard p => if p.probe then some p.generation else none
  | .executor p false => if p.probe then some p.generation else none
  | _ => none

def awaited (inner : Inner) : Multiset Nat := if inner.state = .halfOpen then {inner.generation} else 0

section Permits
variable {breaker : Breaker} {inner inner' : Inner} {now : Nat} {p : BreakerPermit} {rest : Multiset Nat}

def undecided (p : BreakerPermit) : Multiset Nat := if p.probe then {p.generation} else 0

/-- An undecided probe is honoured, and it is the only one. -/
private theorem undecided_honours (hp : p.probe = true) (h : undecided p + rest = awaited inner) :
    inner.Honours p ∧ rest = 0 := by
  rw [undecided, if_pos hp, awaited] at h
  split at h
  · next hs =>
    have hsub : ({p.generation} : Multiset Nat) ≤ {inner.generation} := h ▸ Multiset.le_add_right ..
    have hg := Multiset.singleton_inj.mp (Multiset.eq_of_le_of_card_le hsub (by simp))
    rw [hg] at h
    refine ⟨⟨hg, by rw [hp]; exact hs⟩, ?_⟩
    exact add_left_cancel (h.trans (add_zero _).symm)
  · have hcard := congrArg Multiset.card h
    simp at hcard

private theorem undecided_of_not_probe (hp : p.probe = false) : undecided p = 0 := by
  rw [undecided, hp]
  rfl

private theorem awaited_eq_zero (h : inner.state ≠ .halfOpen) : awaited inner = 0 := if_neg h

private theorem awaited_tryAdmit {admission : BreakerAdmission} (h : rest = awaited inner)
    (ha : tryAdmit breaker inner now = (.ok admission, inner')) :
    undecided admission.permit + rest = awaited inner' := by
  rcases tryAdmit_cases breaker inner now with ⟨_, hc⟩ | ⟨hs, _, hc⟩ | ⟨_, _, _, hc⟩
  · rw [hc] at ha
    cases ha
    rw [undecided_of_not_probe rfl, zero_add, h]
  · rw [hc] at ha
    cases ha
    rw [h, awaited_eq_zero (by rw [hs]; nofun)]
    rfl
  · rw [hc] at ha
    cases ha

private theorem awaited_record (h : undecided p + rest = awaited inner) (failed : Bool) :
    rest = awaited (record breaker inner now p failed).2 := by
  cases hp : p.probe with
  | true =>
    obtain ⟨hh, hrest⟩ := undecided_honours hp h
    rw [hrest, awaited_eq_zero (record_probe_state hh hp now failed)]
  | false =>
    rw [undecided_of_not_probe hp, zero_add] at h
    rcases record_cases breaker inner now p failed with
      ⟨_, hr⟩ | ⟨_, hq, _⟩ | ⟨hh, _, _, _, hr⟩ | ⟨_, _, _, _, hr⟩
    · rw [hr]; exact h
    · rw [hp] at hq
      cases hq
    · have hs : inner.state = .closed := by rw [hh.2, hp]; rfl
      rw [hr, h, awaited_eq_zero (by rw [hs]; nofun), awaited_eq_zero (by simp)]
    · rw [hr]; exact h

private theorem awaited_cancel (h : undecided p + rest = awaited inner) : rest = awaited (cancel inner p) := by
  rcases cancel_cases inner p with ⟨_, hp, hc⟩ | ⟨hn, hc⟩
  · rw [hc, awaited_eq_zero (by simp), (undecided_honours hp h).2]
  · rw [hc]
    cases hp : p.probe with
    | true => exact absurd ⟨(undecided_honours hp h).1, hp⟩ hn
    | false =>
      rw [undecided_of_not_probe hp, zero_add] at h
      exact h

end Permits

def OpenedBy (now : Nat) (inner : Inner) : Prop :=
  inner.state ≠ .closed → ∃ opened, inner.openedAt = some opened ∧ opened ≤ now

section Opened
variable {breaker : Breaker} {inner : Inner} {now : Nat}

private theorem OpenedBy.tryAdmit (h : OpenedBy now inner) (breaker : Breaker) : OpenedBy now (tryAdmit breaker inner now).2 := by
  rcases tryAdmit_cases breaker inner now with ⟨_, ha⟩ | ⟨hs, _, ha⟩ | ⟨_, _, _, ha⟩
  · rw [ha]; exact h
  · rw [ha]
    exact fun _ => h (by rw [hs]; nofun)
  · rw [ha]; exact h

private theorem OpenedBy.record (h : OpenedBy now inner) (p : BreakerPermit) (failed : Bool) :
    OpenedBy now (record breaker inner now p failed).2 := by
  rcases record_cases breaker inner now p failed with
    ⟨_, hr⟩ | ⟨_, _, hr⟩ | ⟨_, _, _, _, hr⟩ | ⟨_, _, _, _, hr⟩
  · rw [hr]; exact h
  · rw [hr]
    cases failed with
    | true => exact fun _ => ⟨now, rfl, le_rfl⟩
    | false => exact fun hn => absurd rfl hn
  · rw [hr]
    exact fun _ => ⟨now, rfl, le_rfl⟩
  · rw [hr]; exact h

private theorem OpenedBy.cancel (h : OpenedBy now inner) (p : BreakerPermit) : OpenedBy now (cancel inner p) := by
  rcases cancel_cases inner p with ⟨hh, hp, hc⟩ | ⟨_, hc⟩
  · rw [hc]
    refine fun _ => h ?_
    rw [hh.2, hp]
    nofun
  · rw [hc]; exact h

/-- Once the cooldown has passed, a breaker that waits for no probe admits. -/
theorem OpenedBy.admits (h : OpenedBy now inner) (hs : inner.state ≠ .halfOpen) (later : Nat)
    (hlater : now + breaker.cooldown ≤ later) : ∃ admission, (Breaker.tryAdmit breaker inner later).1 = .ok admission := by
  rcases tryAdmit_cases breaker inner later with ⟨_, ha⟩ | ⟨_, _, ha⟩ | ⟨hc, hearly, _⟩
  · exact ⟨_, by rw [ha]⟩
  · exact ⟨_, by rw [ha]⟩
  · exfalso
    obtain ⟨opened, ho, hle⟩ := h hc
    have hstate : inner.state = .opened := by
      cases hi : inner.state with
      | closed => exact absurd hi hc
      | halfOpen => exact absurd hi hs
      | opened => rfl
    have hshort := hearly hstate
    rw [ho, Option.elim_some] at hshort
    omega

end Opened

/-- The undecided probes held on an entry are the one its breaker awaits. -/
structure Probed (now : Nat) (entry : PoolEntry) (held : Multiset Resource) : Prop where
  probes : held.filterMap Resource.probe = awaited entry.breaker
  opened : OpenedBy now entry.breaker

private theorem guard_probes (p : BreakerPermit) (held : List Resource) :
    ((Resource.guard p :: held : List Resource) : Multiset Resource).filterMap Resource.probe =
      undecided p + (held : Multiset Resource).filterMap Resource.probe := by
  cases hp : p.probe <;> simp [Resource.probe, undecided, hp]

private theorem executor_probes (p : BreakerPermit) (held : List Resource) :
    ((Resource.executor p false :: held : List Resource) : Multiset Resource).filterMap Resource.probe =
      undecided p + (held : Multiset Resource).filterMap Resource.probe := by
  cases hp : p.probe <;> simp [Resource.probe, undecided, hp]

private theorem inert_probes {r : Resource} (h : r.probe = none) (held : List Resource) :
    ((r :: held : List Resource) : Multiset Resource).filterMap Resource.probe =
      (held : Multiset Resource).filterMap Resource.probe := by
  rw [← Multiset.cons_coe, Multiset.filterMap_cons_none _ _ h]

/-- Steps that move the permit from one guard to the other, or not at all. -/
private theorem Probed.of_same {now : Nat} {entry entry' : PoolEntry} {held held' : List Resource}
    {rest : Multiset Resource} (h : Probed now entry ((held : Multiset Resource) + rest))
    (hb : entry'.breaker = entry.breaker)
    (hheld : (held' : Multiset Resource).filterMap Resource.probe =
      (held : Multiset Resource).filterMap Resource.probe) :
    Probed now entry' ((held' : Multiset Resource) + rest) := by
  refine ⟨?_, by rw [hb]; exact h.opened⟩
  rw [Multiset.filterMap_add, hheld, ← Multiset.filterMap_add, hb]
  exact h.probes

private theorem Probed.dropped {now : Nat} {entry : PoolEntry} {r : Resource} {held : List Resource}
    {rest : Multiset Resource} (h : Probed now entry (((r :: held : List Resource) : Multiset Resource) + rest)) :
    Probed now (dropResource entry r).1 ((held : Multiset Resource) + rest) := by
  have given (p : BreakerPermit)
      (hr : ((r :: held : List Resource) : Multiset Resource).filterMap Resource.probe =
        undecided p + (held : Multiset Resource).filterMap Resource.probe) :
      Probed now { entry with breaker := Breaker.cancel entry.breaker p } ((held : Multiset Resource) + rest) := by
    obtain ⟨hp, ho⟩ := h
    rw [Multiset.filterMap_add, hr, add_assoc, ← Multiset.filterMap_add] at hp
    exact ⟨awaited_cancel hp, ho.cancel p⟩
  cases r with
  | executor p recorded =>
    cases recorded with
    | true => exact h.of_same rfl (inert_probes rfl held).symm
    | false => exact given p (executor_probes p held)
  | guard p => exact given p (guard_probes p held)
  | inUse => exact h.of_same rfl (inert_probes rfl held).symm
  | permit => exact h.of_same rfl (inert_probes rfl held).symm
  | client index => exact h.of_same rfl (inert_probes rfl held).symm
  | waiter => exact h.of_same rfl (inert_probes rfl held).symm

private theorem Probed.acts {now : Nat} {entry : PoolEntry} {stage : Stage} {effect : Effect}
    {rest : Multiset Resource} (h : Probed now entry ((stage.held : Multiset Resource) + rest))
    (hacts : Acts now entry stage effect) :
    Probed now effect.entry ((effect.stage.held : Multiset Resource) + rest) := by
  cases hacts with
  | refused secs inner ha =>
    have hinner : inner = entry.breaker := by
      rcases tryAdmit_cases entry.breakerConfig entry.breaker now with ⟨_, hc⟩ | ⟨_, _, hc⟩ | ⟨_, _, _, hc⟩
      all_goals rw [hc] at ha; cases ha
      rfl
    exact h.of_same hinner rfl
  | admitted admission inner ha =>
    obtain ⟨hp, ho⟩ := h
    rw [Stage.held, Multiset.coe_nil, zero_add] at hp
    refine ⟨?_, ?_⟩
    · rw [Stage.held, Multiset.filterMap_add, guard_probes, Multiset.coe_nil, Multiset.filterMap_zero, add_zero]
      exact awaited_tryAdmit hp ha
    · have := ho.tryAdmit entry.breakerConfig
      rw [ha] at this
      exact this
  | enqueued p _ => exact h.of_same rfl (inert_probes rfl _)
  | granted p _ => exact h.of_same rfl (inert_probes rfl _)
  | unwaited p => exact h.of_same rfl rfl
  | counted p => exact h.of_same rfl rfl
  | leased _ p client next hs _ =>
    have hheld : stage.held = [.permit, .guard p] := by rcases hs with rfl | ⟨_, rfl⟩ <;> rfl
    refine h.of_same rfl ?_
    rw [hheld]
    rfl
  | waits p start next _ => exact h.of_same rfl rfl
  | recorded p client failed =>
    obtain ⟨hp, ho⟩ := h
    rw [Stage.held, Multiset.filterMap_add, executor_probes, add_assoc, ← Multiset.filterMap_add] at hp
    refine ⟨?_, ho.record p failed⟩
    rw [Stage.held, Multiset.filterMap_add, inert_probes rfl, ← Multiset.filterMap_add]
    exact awaited_record hp failed
  | left _ error => exact h.of_same rfl rfl
  | dropped r held error => exact h.dropped

theorem probed_invariant : EntryInvariant Probed where
  later n m entry held hnm h := by
    refine ⟨h.probes, fun hs => ?_⟩
    obtain ⟨opened, ho, hle⟩ := h.opened hs
    exact ⟨opened, ho, hle.trans hnm⟩
  used _ _ _ _ h := ⟨h.probes, h.opened⟩
  built _ name config secs := ⟨rfl, fun h => absurd rfl h⟩
  act _ _ _ _ _ _ h hact := h.acts (acts_of_act hact)

end Srh.Adapters.PoolManager
