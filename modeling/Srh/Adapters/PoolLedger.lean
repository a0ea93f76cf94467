import Srh.Adapters.PoolEntryRule

/-! The counters of an entry against the guards held on it: the semaphore's free
permits and the waiter count. -/
namespace Srh.Adapters.PoolManager
open Srh.Lib Srh.Domain Srh.Domain.Breaker

section Act
variable {n : Nat} {entry : PoolEntry} {a : Action} {stage : Stage} {effect : Effect}

private theorem dropResource_available (entry : PoolEntry) (r : Resource) :
    (dropResource entry r).1.available = entry.available + [r].count .permit := by
  cases r with
  | executor p recorded => cases recorded <;> simp [dropResource]
  | inUse => simp [dropResource]
  | permit => simp [dropResource]
  | client index => simp [dropResource]
  | waiter => simp [dropResource]
  | guard p => simp [dropResource]

private theorem dropResource_waiters (entry : PoolEntry) (r : Resource) :
    (dropResource entry r).1.waiters = entry.waiters - [r].count .waiter := by
  cases r with
  | executor p recorded => cases recorded <;> simp [dropResource]
  | inUse => simp [dropResource]
  | permit => simp [dropResource]
  | client index => simp [dropResource]
  | waiter => simp [dropResource]
  | guard p => simp [dropResource]

/-- A step takes a permit from the semaphore exactly when the task gets it. -/
theorem Acts.available (h : Acts n entry stage effect) :
    effect.entry.available + effect.stage.held.count .permit = entry.available + stage.held.count .permit := by
  cases h with
  | refused secs inner _ => rfl
  | admitted admission inner _ => simp [Stage.held]
  | enqueued p _ => simp [Stage.held]
  | granted p hpos =>
    simp [Stage.held]
    omega
  | unwaited p => simp [Stage.held]
  | counted p => simp [Stage.held]
  | leased _ p client next hs _ => rcases hs with rfl | ⟨_, rfl⟩ <;> simp [Stage.held]
  | waits p start next _ => simp [Stage.held]
  | recorded p client failed => simp [Stage.held]
  | left _ error => rfl
  | dropped r held error =>
    simp only [dropResource_available, Stage.held, List.count_cons, List.count_nil]
    omega

/-- A step counts a waiter exactly when the task becomes one. -/
theorem Acts.waiters (h : Acts n entry stage effect) :
    effect.entry.waiters + stage.held.count .waiter = entry.waiters + effect.stage.held.count .waiter := by
  cases h with
  | refused secs inner _ => rfl
  | admitted admission inner _ => simp [Stage.held]
  | enqueued p _ => simp [Stage.held]
  | granted p hpos => simp [Stage.held]
  | unwaited p => simp [Stage.held]
  | counted p => simp [Stage.held]
  | leased _ p client next hs _ => rcases hs with rfl | ⟨_, rfl⟩ <;> simp [Stage.held]
  | waits p start next _ => simp [Stage.held]
  | recorded p client failed => simp [Stage.held]
  | left _ error => rfl
  | dropped r held error =>
    simp only [dropResource_waiters, Stage.held, List.count_cons, List.count_nil]
    push_cast
    omega

private theorem Acts.waiters_le (h : Acts n entry stage effect) (hle : entry.waiters ≤ entry.config.maxWaiters) :
    effect.entry.waiters ≤ entry.config.maxWaiters := by
  cases h with
  | enqueued p hlt => exact Int.add_one_le_of_lt hlt
  | unwaited p => exact (Int.sub_le_self _ (by decide)).trans hle
  | dropped r held error =>
    rw [dropResource_waiters]
    exact (Int.sub_le_self _ (Int.natCast_nonneg _)).trans hle
  | _ => exact hle

end Act

structure Balanced (entry : PoolEntry) (held : Multiset Resource) : Prop where
  permits : entry.available + held.count .permit = entry.config.maxConnections
  waiters : entry.waiters = held.count .waiter
  waiters_le : entry.waiters ≤ entry.config.maxWaiters

theorem balanced_invariant : EntryInvariant fun _ => Balanced where
  later _ _ _ _ _ h := h
  used _ _ _ _ h := ⟨h.permits, h.waiters, h.waiters_le⟩
  built _ name config secs := ⟨rfl, rfl, Int.natCast_nonneg _⟩
  act n entry a stage effect rest h hact := by
    have hacts := acts_of_act hact
    obtain ⟨-, hconfig, -⟩ := hacts.fixed
    have havail := hacts.available
    have hwait := hacts.waiters
    obtain ⟨hp, hw, hle⟩ := h
    rw [Multiset.count_add, Multiset.coe_count] at hp hw
    refine ⟨?_, ?_, ?_⟩
    · rw [Multiset.count_add, Multiset.coe_count, hconfig]
      omega
    · rw [Multiset.count_add, Multiset.coe_count]
      push_cast at hw ⊢
      omega
    · rw [hconfig]
      exact hacts.waiters_le hle

end Srh.Adapters.PoolManager
