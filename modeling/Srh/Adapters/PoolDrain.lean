import Srh.Adapters.PoolProbe

/-! Every request can always be brought to its end, whatever the others do. With
the account of probe permits this rules out a breaker that refuses for ever. -/
namespace Srh.Adapters.PoolManager
open Srh.Lib Srh.Domain Srh.Domain.Breaker

/-- An upper bound on the steps left when the task is abandoned at its next await. -/
def Stage.rank : Stage → Nat
  | .entered => 5
  | .admitted _ => 4
  | .queued _ => 3
  | .granted _ => 4
  | .unwaited _ => 7
  | .counted _ => 6
  | .waitingClient _ _ => 3
  | .leased _ _ => 5
  | .recorded _ _ => 5
  | .dropping held _ => held.length

def Task.Live (t : Task) : Prop := 0 < t.stage.rank

theorem held_of_not_live {t : Task} (h : ¬ t.Live) : t.stage.held = [] := by
  rw [Task.Live, not_lt, Nat.le_zero] at h
  cases hs : t.stage with
  | dropping held error =>
    rw [hs] at h
    exact List.eq_nil_of_length_eq_zero h
  | _ => rw [hs] at h; cases h

/-- The next step of a task that is abandoned as soon as it can be. -/
def Stage.wayOut : Stage → Action
  | .entered => .tryAdmit
  | .admitted _ => .enqueue
  | .unwaited _ => .countInUse
  | .counted _ => .acquireClient
  | .recorded _ _ => .finish
  | .dropping _ _ => .drop
  | _ => .cancel

/-- A live task always has a step of its own, and it brings it closer to its end. -/
theorem act_wayOut (n : Nat) (entry : PoolEntry) {stage : Stage} (h : 0 < stage.rank) :
    ∃ effect, act n entry stage.wayOut stage = some effect ∧ effect.stage.rank < stage.rank := by
  cases stage with
  | entered =>
    simp only [Stage.wayOut, act]
    split
    all_goals exact ⟨_, rfl, by simp [Stage.rank]⟩
  | admitted p =>
    simp only [Stage.wayOut, act]
    split
    all_goals exact ⟨_, rfl, by simp [Stage.rank, Stage.held]⟩
  | queued p => exact ⟨_, rfl, by simp [Stage.rank, Stage.held]⟩
  | granted p => exact ⟨_, rfl, by simp [Stage.rank, Stage.held]⟩
  | unwaited p => exact ⟨_, rfl, by simp [Stage.rank]⟩
  | counted p =>
    simp only [Stage.wayOut, act]
    split
    all_goals exact ⟨_, rfl, by simp [Stage.rank, lease]⟩
  | waitingClient p start => exact ⟨_, rfl, by simp [Stage.rank, Stage.held]⟩
  | leased p client => exact ⟨_, rfl, by simp [Stage.rank, Stage.held]⟩
  | recorded p client => exact ⟨_, rfl, by simp [Stage.rank, Stage.held]⟩
  | dropping held error =>
    cases held with
    | nil => cases h
    | cons r held => exact ⟨_, rfl, Nat.lt_succ_self _⟩

def World.rank (w : World) : Nat := tally (fun t : Task => t.stage.rank) w.tasks

/-- While some task is live, some step of a live task lowers the total. -/
private theorem exists_step (config : FiniteMap String PoolConfig) {w : World} (hw : Homed w) {t : Task}
    (ht : t ∈ w.tasks) (hlive : t.Live) :
    ∃ e w', (machine config).step w e = some w' ∧ w'.rank < w.rank ∧ Homed w' ∧
      w'.entries.length = w.entries.length := by
  obtain ⟨i, hi⟩ := List.mem_iff_getElem?.mp ht
  have hentry : w.entries[t.entry]? = some (w.entries.get ⟨t.entry, hw t ht⟩) := List.getElem?_eq_getElem (hw t ht)
  obtain ⟨effect, hact, hlt⟩ := act_wayOut w.instant (w.entries.get ⟨t.entry, hw t ht⟩) hlive
  obtain ⟨rest, hrank, hset⟩ := tally_frame (fun t : Task => t.stage.rank) hi
  have hstep : (machine config).step w (.act i t.stage.wayOut) = some (w.withEffect i t effect) :=
    actTask_eq_some.mpr ⟨t, _, effect, hi, hentry, hact, rfl⟩
  refine ⟨_, _, hstep, ?_, hw.withEffect hi effect, List.length_set ..⟩
  rw [World.rank, World.rank, World.withEffect, hrank, hset]
  exact Nat.add_lt_add_right hlt rest

/-- From any state, some continuation ends every task. -/
theorem drains (config : FiniteMap String PoolConfig) (w : World) (hw : Homed w) :
    ∃ events w', (machine config).run w events = some w' ∧ (∀ t ∈ w'.tasks, ¬ t.Live) ∧
      w'.entries.length = w.entries.length := by
  induction hr : w.rank using Nat.strong_induction_on generalizing w with
  | _ rank ih =>
    by_cases hlive : ∃ t ∈ w.tasks, t.Live
    · obtain ⟨t, ht, hlive⟩ := hlive
      obtain ⟨e, v, hstep, hlt, hv, hlen⟩ := exists_step config hw ht hlive
      obtain ⟨events, w', hrun, hend, hlen'⟩ := ih v.rank (hr ▸ hlt) v hv rfl
      refine ⟨e :: events, w', ?_, hend, hlen'.trans hlen⟩
      rw [Machine.run, hstep]
      exact hrun
    · exact ⟨[], w, rfl, fun t ht h => hlive ⟨t, ht, h⟩, rfl⟩

/-- The task holds the probe permit that the breaker waits for, in its
AdmissionGuard or in a BreakerExecutor that has recorded nothing. -/
def Task.HoldsProbe (t : Task) (inner : Inner) : Prop :=
  ∃ p, (.guard p ∈ t.stage.held ∨ .executor p false ∈ t.stage.held) ∧ p.probe = true ∧
    p.generation = inner.generation

private theorem probe_eq_some {r : Resource} {g : Nat} (h : r.probe = some g) :
    ∃ p : BreakerPermit, (r = .guard p ∨ r = .executor p false) ∧ p.probe = true ∧ p.generation = g := by
  cases r with
  | guard p =>
    obtain ⟨hp, hg⟩ := Option.ite_none_right_eq_some.mp h
    exact ⟨p, .inl rfl, hp, Option.some.inj hg⟩
  | executor p recorded =>
    cases recorded with
    | true => cases h
    | false =>
      obtain ⟨hp, hg⟩ := Option.ite_none_right_eq_some.mp h
      exact ⟨p, .inr rfl, hp, Option.some.inj hg⟩
  | _ => cases h

private theorem holdsProbe_iff {t : Task} {inner : Inner} :
    t.HoldsProbe inner ↔ inner.generation ∈ t.stage.held.filterMap Resource.probe := by
  rw [List.mem_filterMap]
  constructor
  · rintro ⟨p, hp, hprobe, hg⟩
    rcases hp with hp | hp
    · exact ⟨_, hp, by rw [Resource.probe, if_pos hprobe, hg]⟩
    · exact ⟨_, hp, by rw [Resource.probe, if_pos hprobe, hg]⟩
  · rintro ⟨r, hr, hprobe⟩
    obtain ⟨p, rfl | rfl, hp, hg⟩ := probe_eq_some hprobe
    · exact ⟨p, .inl hr, hp, hg⟩
    · exact ⟨p, .inr hr, hp, hg⟩

/-- How often the tasks of an entry hold a probe of one generation. -/
private theorem count_heldOn (tasks : List Task) (e g : Nat) :
    ((heldOn tasks e).filterMap Resource.probe).count g =
      tally (fun t => if t.entry = e then (t.stage.held.filterMap Resource.probe).count g else 0) tasks := by
  let hom : Multiset Resource →+ Nat :=
    { toFun := fun held => (held.filterMap Resource.probe).count g
      map_zero' := rfl
      map_add' := fun a b => by rw [Multiset.filterMap_add, Multiset.count_add] }
  rw [heldOn]
  refine (map_tally hom _ tasks).trans (tally_congr fun t _ => ?_)
  split
  · exact Multiset.coe_count ..
  · rfl

private theorem count_awaited {inner : Inner} (h : inner.state = .halfOpen) :
    (awaited inner).count inner.generation = 1 := by
  rw [awaited, if_pos h, Multiset.count_singleton_self]

/-- While the breaker of an entry is half open, exactly one task holds its probe. -/
theorem exists_unique_probe {w : World} (h : Throughout Probed w) {e : Nat} {entry : PoolEntry}
    (he : w.entries[e]? = some entry) (hs : entry.breaker.state = .halfOpen) :
    ∃! i : Nat, ∃ t, w.tasks[i]? = some t ∧ t.entry = e ∧ t.HoldsProbe entry.breaker := by
  have hone := count_awaited hs
  rw [← (h.2 e entry he).probes, count_heldOn] at hone
  obtain ⟨i, ⟨t, ht, hne⟩, huniq⟩ := tally_eq_one hone
  refine ⟨i, ⟨t, ht, ?_⟩, ?_⟩
  · by_cases hte : t.entry = e
    · rw [if_pos hte] at hne
      exact ⟨hte, holdsProbe_iff.mpr (List.count_pos_iff.mp (Nat.pos_of_ne_zero hne))⟩
    · exact absurd (if_neg hte) hne
  · rintro j ⟨u, hu, hue, hprobe⟩
    refine huniq j ⟨u, hu, ?_⟩
    rw [if_pos hue]
    exact (List.count_pos_iff.mpr (holdsProbe_iff.mp hprobe)).ne'

/-- Without a live task no breaker is half open. -/
theorem not_halfOpen_of_idle {w : World} (h : Throughout Probed w) {e : Nat} {entry : PoolEntry}
    (he : w.entries[e]? = some entry) (hidle : ∀ t ∈ w.tasks, t.entry = e → ¬ t.Live) :
    entry.breaker.state ≠ .halfOpen := by
  intro hs
  have hone := count_awaited hs
  rw [← (h.2 e entry he).probes,
    heldOn_eq_zero fun t ht hte => held_of_not_live (hidle t ht hte)] at hone
  cases hone

/-- A half-open probe is never orphaned: in every state of every interleaving,
the breaker of every entry waits only for a permit that exactly one task holds;
without live tasks it is closed or open; and some continuation makes it admit. -/
theorem probe_never_orphaned (config : FiniteMap String PoolConfig) (events : List Event) (w : World)
    (hrun : (machine config).run .new events = some w) (e : Nat) (entry : PoolEntry)
    (he : w.entries[e]? = some entry) :
    (entry.breaker.state = .halfOpen →
      ∃! i : Nat, ∃ t, w.tasks[i]? = some t ∧ t.entry = e ∧ t.HoldsProbe entry.breaker) ∧
    ((∀ t ∈ w.tasks, t.entry = e → ¬ t.Live) → entry.breaker.state = .closed ∨ entry.breaker.state = .opened) ∧
    ∃ more w' entry' admission, (machine config).run w more = some w' ∧ w'.entries[e]? = some entry' ∧
      (tryAdmit entry'.breakerConfig entry'.breaker w'.instant).1 = .ok admission := by
  have h := probed_invariant.run hrun
  refine ⟨exists_unique_probe h he, ?_, ?_⟩
  · intro hidle
    have hs := not_halfOpen_of_idle h he hidle
    cases hi : entry.breaker.state with
    | closed => exact .inl rfl
    | halfOpen => exact absurd hi hs
    | opened => exact .inr rfl
  · obtain ⟨more, v, hmore, hidle, hlen⟩ := drains config w h.1
    have hall : (machine config).run .new (events ++ more) = some v := by
      rw [Machine.run_append, hrun]
      exact hmore
    have hv := probed_invariant.run hall
    have hlt : e < v.entries.length := hlen ▸ (List.getElem?_eq_some_iff.mp he).1
    obtain ⟨entry', hentry⟩ : ∃ entry', v.entries[e]? = some entry' := ⟨_, List.getElem?_eq_getElem hlt⟩
    have hs := not_halfOpen_of_idle hv hentry fun t ht _ => hidle t ht
    obtain ⟨admission, hadmit⟩ := (hv.2 e entry' hentry).opened.admits hs _ le_rfl
    refine ⟨more ++ [.tick 0 entry'.breakerConfig.cooldown],
      { v with instant := v.instant + entry'.breakerConfig.cooldown }, entry', admission, ?_, hentry, hadmit⟩
    rw [Machine.run_append, hmore]
    rfl

def fragilePool : FiniteMap String PoolConfig :=
  FiniteMap.empty.insert "main" (.new "redis://localhost" 1 2000 500 none (some ⟨1, 1⟩))

def failThenProbe : List Event :=
  [.acquire "main" none, .act 0 .tryAdmit, .act 0 .enqueue, .act 0 .grant, .act 0 .unwait, .act 0 .countInUse,
    .act 0 .acquireClient, .act 0 (.complete [.timeout]), .tick 0 1000000, .acquire "main" none, .act 1 .tryAdmit]

theorem probe_never_orphaned_failThenProbe :
    ∃ w entry, (machine fragilePool).run .new failThenProbe = some w ∧ w.entries[0]? = some entry ∧
      entry.breaker.state = .halfOpen ∧
      ∃! i : Nat, ∃ t, w.tasks[i]? = some t ∧ t.entry = 0 ∧ t.HoldsProbe entry.breaker := by
  have hstate : ((machine fragilePool).run .new failThenProbe).bind
      (fun w => w.entries[0]?.map (·.breaker.state)) = some .halfOpen := by decide +kernel
  obtain ⟨w, hw, hstate⟩ := Option.bind_eq_some_iff.mp hstate
  obtain ⟨entry, he, hs⟩ := Option.map_eq_some_iff.mp hstate
  exact ⟨w, entry, hw, he, hs, (probe_never_orphaned fragilePool failThenProbe w hw 0 entry he).1 hs⟩

end Srh.Adapters.PoolManager
