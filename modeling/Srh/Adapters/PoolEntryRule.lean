import Srh.Adapters.PoolManager
import Srh.Lib.Tally
import Mathlib.Algebra.Order.Group.Multiset

/-! One rule for everything that ties an entry to what its requests hold. A fact
about an entry and the guards held on it is kept by every run once it is kept by
every step of a single task, with an arbitrary rest held by the others. -/
namespace Srh.Adapters.PoolManager
open Srh.Lib Srh.Domain Srh.Domain.Breaker

def heldOn (tasks : List Task) (e : Nat) : Multiset Resource :=
  tally (fun t => if t.entry = e then (t.stage.held : Multiset Resource) else 0) tasks

private theorem heldOn_enter (tasks : List Task) (e id since : Nat) :
    heldOn (tasks ++ [⟨id, since, .entered⟩]) e = heldOn tasks e := by
  rw [heldOn, tally_concat]
  simp [heldOn, Stage.held]

theorem heldOn_eq_zero {tasks : List Task} {e : Nat} (h : ∀ t ∈ tasks, t.entry = e → t.stage.held = []) :
    heldOn tasks e = 0 := by
  apply tally_eq_zero
  intro t ht
  split
  · next he => rw [h t ht he]; rfl
  · rfl

/-- The part of one task in what is held on its own entry. -/
theorem heldOn_frame {tasks : List Task} {i : Nat} {t : Task} (h : tasks[i]? = some t) :
    ∃ rest, heldOn tasks t.entry = (t.stage.held : Multiset Resource) + rest ∧
      ∀ stage, heldOn (tasks.set i { t with stage := stage }) t.entry = (stage.held : Multiset Resource) + rest := by
  obtain ⟨rest, hl, hset⟩ := tally_frame
    (fun u : Task => if u.entry = t.entry then (u.stage.held : Multiset Resource) else 0) h
  refine ⟨rest, ?_, fun stage => ?_⟩
  · rw [heldOn, hl, if_pos rfl]
  · rw [heldOn, hset, if_pos rfl]

/-- A task has no part in what is held on another entry. -/
theorem heldOn_set_of_ne {tasks : List Task} {i : Nat} {t : Task} (h : tasks[i]? = some t) {e : Nat}
    (hne : t.entry ≠ e) (stage : Stage) :
    heldOn (tasks.set i { t with stage := stage }) e = heldOn tasks e := by
  obtain ⟨rest, hl, hset⟩ := tally_frame
    (fun u : Task => if u.entry = e then (u.stage.held : Multiset Resource) else 0) h
  rw [heldOn, heldOn, hl, hset, if_neg hne, if_neg hne]

/-- A step of a task, taken apart. -/
theorem actTask_eq_some {w w' : World} {i : Nat} {a : Action} :
    actTask w i a = some w' ↔ ∃ t entry effect, w.tasks[i]? = some t ∧ w.entries[t.entry]? = some entry ∧
      act w.instant entry a t.stage = some effect ∧ w' = w.withEffect i t effect := by
  constructor
  · intro h
    obtain ⟨t, ht, h⟩ := Option.bind_eq_some_iff.mp h
    obtain ⟨entry, he, h⟩ := Option.bind_eq_some_iff.mp h
    obtain ⟨effect, ha, h⟩ := Option.bind_eq_some_iff.mp h
    exact ⟨t, entry, effect, ht, he, ha, (Option.some.inj h).symm⟩
  · rintro ⟨t, entry, effect, ht, he, ha, rfl⟩
    simp only [actTask, ht, he, ha, Option.bind_eq_bind, Option.bind_some]

private theorem dropResource_fixed (entry : PoolEntry) (r : Resource) :
    (dropResource entry r).1.name = entry.name ∧ (dropResource entry r).1.config = entry.config ∧
      (dropResource entry r).1.lastUsed = entry.lastUsed := by
  cases r with
  | executor p recorded => cases recorded <;> exact ⟨rfl, rfl, rfl⟩
  | _ => exact ⟨rfl, rfl, rfl⟩

theorem Acts.fixed {n : Nat} {entry : PoolEntry} {stage : Stage} {effect : Effect} (h : Acts n entry stage effect) :
    effect.entry.name = entry.name ∧ effect.entry.config = entry.config ∧ effect.entry.lastUsed = entry.lastUsed := by
  cases h with
  | dropped r held error => exact dropResource_fixed entry r
  | _ => exact ⟨rfl, rfl, rfl⟩

/-- What an acquisition does. -/
theorem acquire_cases (config : FiniteMap String PoolConfig) (w : World) (name : String)
    (buildError : Option String) :
    acquire config w name buildError = w ∨
    (∃ id, w.pools.get name = some id ∧ acquire config w name buildError =
      { w with
        entries := w.entries.modify id fun entry => { entry with lastUsed := w.unixSecs }
        tasks := w.tasks ++ [⟨id, w.unixSecs, .entered⟩] }) ∨
    (∃ poolConfig, config.get name = some poolConfig ∧ w.pools.get name = none ∧
      acquire config w name buildError =
        { w with
          entries := w.entries ++ [.build name poolConfig w.unixSecs]
          pools := w.pools.insert name w.entries.length
          permitsInUse := setGauge w.permitsInUse name 0
          tasks := w.tasks ++ [⟨w.entries.length, w.unixSecs, .entered⟩] }) := by
  rw [acquire, getOrBuild]
  cases hc : config.get name with
  | none => exact .inl rfl
  | some poolConfig =>
    cases hp : w.pools.get name with
    | some id => exact .inr (.inl ⟨id, rfl, rfl⟩)
    | none =>
      cases buildError with
      | some message => exact .inl rfl
      | none => exact .inr (.inr ⟨poolConfig, rfl, rfl, rfl⟩)

/-- What a visit of an eviction pass does. -/
theorem removeIf_cases {w w' : World} {j : Nat} (h : removeIf w j = some w') :
    ∃ e name names, w.evictors[j]? = some e ∧ e.names = name :: names ∧
      (w' = { w with evictors := w.evictors.set j ⟨e.now, names, none⟩ } ∨
      ∃ id entry, w.pools.get name = some id ∧ w.entries[id]? = some entry ∧ entry.evictable e.now = true ∧
        w' = { w with
          pools := w.pools.remove name
          evictors := w.evictors.set j ⟨e.now, names, some name⟩ }) := by
  obtain ⟨e, he, h⟩ := Option.bind_eq_some_iff.mp h
  split at h
  · next name names _ hn =>
    refine ⟨e, name, names, he, hn, ?_⟩
    by_cases hany : ((w.pools.get name).bind (w.entries[·]?)).any (·.evictable e.now)
    · rw [if_pos hany] at h
      obtain ⟨entry, hentry, hev⟩ := (Option.any_eq_true ..).mp hany
      obtain ⟨id, hid, hget⟩ := Option.bind_eq_some_iff.mp hentry
      exact .inr ⟨id, entry, hid, hget, hev, (Option.some.inj h).symm⟩
    · rw [if_neg hany] at h
      exact .inl (Option.some.inj h).symm
  · cases h

/-- The events that touch neither an entry nor a task. -/
theorem step_quiet {config : FiniteMap String PoolConfig} {w w' : World} {e : Event}
    (h : (machine config).step w e = some w') (hacq : ∀ name err, e ≠ .acquire name err)
    (hact : ∀ i a, e ≠ .act i a) : w'.entries = w.entries ∧ w'.tasks = w.tasks ∧ w.instant ≤ w'.instant := by
  cases e with
  | tick secs nanos =>
    cases h
    exact ⟨rfl, rfl, Nat.le_add_right ..⟩
  | acquire name err => exact absurd rfl (hacq name err)
  | act i a => exact absurd rfl (hact i a)
  | evictIdle names =>
    cases h
    exact ⟨rfl, rfl, le_rfl⟩
  | removeIf j =>
    obtain ⟨_, _, _, _, _, rfl | ⟨_, _, _, _, _, rfl⟩⟩ := removeIf_cases h
    all_goals exact ⟨rfl, rfl, le_rfl⟩
  | resetGauges j =>
    obtain ⟨e, _, h⟩ := Option.bind_eq_some_iff.mp h
    obtain ⟨name, _, h⟩ := Option.bind_eq_some_iff.mp h
    cases h
    exact ⟨rfl, rfl, le_rfl⟩

/-- A fact about a time, an entry and the guards held on it that a fresh entry
has and that time, use and every step of one task keep. -/
structure EntryInvariant (p : Nat → PoolEntry → Multiset Resource → Prop) : Prop where
  later : ∀ n m entry held, n ≤ m → p n entry held → p m entry held
  used : ∀ n entry held secs, p n entry held → p n { entry with lastUsed := secs } held
  built : ∀ n name config secs, p n (.build name config secs) 0
  act : ∀ n entry a stage effect rest, p n entry ((stage.held : Multiset Resource) + rest) →
    PoolManager.act n entry a stage = some effect →
    p n effect.entry ((effect.stage.held : Multiset Resource) + rest)

def Homed (w : World) : Prop := ∀ t ∈ w.tasks, t.entry < w.entries.length

theorem Homed.withEffect {w : World} (h : Homed w) {i : Nat} {t : Task} (ht : w.tasks[i]? = some t) (effect : Effect) :
    Homed (w.withEffect i t effect) := by
  intro u hu
  rw [World.withEffect, List.length_set]
  rcases List.mem_or_eq_of_mem_set hu with hu | rfl
  · exact h u hu
  · exact h t (List.mem_of_getElem? ht)

/-- Every task names an entry, and the fact holds of every entry. -/
def Throughout (p : Nat → PoolEntry → Multiset Resource → Prop) (w : World) : Prop :=
  Homed w ∧ ∀ e entry, w.entries[e]? = some entry → p w.instant entry (heldOn w.tasks e)

section Rule
variable {p : Nat → PoolEntry → Multiset Resource → Prop} {config : FiniteMap String PoolConfig} {w w' : World}

theorem throughout_new : Throughout p .new := ⟨nofun, nofun⟩

private theorem Throughout.reuse (hp : EntryInvariant p) (h : Throughout p w) {id : Nat} (hid : id < w.entries.length) :
    Throughout p { w with
      entries := w.entries.modify id fun entry => { entry with lastUsed := w.unixSecs }
      tasks := w.tasks ++ [⟨id, w.unixSecs, .entered⟩] } := by
  constructor
  · intro t ht
    rw [List.length_modify]
    rcases List.mem_append.mp ht with ht | ht
    · exact h.1 t ht
    · rw [List.mem_singleton.mp ht]
      exact hid
  · intro e entry he
    simp only [heldOn_enter]
    rw [List.getElem?_modify] at he
    obtain ⟨old, hold, rfl⟩ := Option.map_eq_some_iff.mp he
    split
    · exact hp.used _ _ _ _ (h.2 e old hold)
    · exact h.2 e old hold

private theorem Throughout.build (hp : EntryInvariant p) (h : Throughout p w) (name : String) (poolConfig : PoolConfig) :
    Throughout p { w with
      entries := w.entries ++ [.build name poolConfig w.unixSecs]
      pools := w.pools.insert name w.entries.length
      permitsInUse := setGauge w.permitsInUse name 0
      tasks := w.tasks ++ [⟨w.entries.length, w.unixSecs, .entered⟩] } := by
  constructor
  · intro t ht
    rw [List.length_append, List.length_singleton]
    rcases List.mem_append.mp ht with ht | ht
    · exact Nat.lt_succ_of_lt (h.1 t ht)
    · rw [List.mem_singleton.mp ht]
      exact Nat.lt_succ_self _
  · intro e entry he
    simp only [heldOn_enter]
    by_cases hlt : e < w.entries.length
    · rw [List.getElem?_append_left hlt] at he
      exact h.2 e entry he
    · rw [List.getElem?_append_right (not_lt.mp hlt), List.getElem?_singleton] at he
      split at he
      · cases he
        rw [heldOn_eq_zero]
        · exact hp.built ..
        · intro t ht hte
          have := h.1 t ht
          omega
      · cases he

private theorem Throughout.actTask (hp : EntryInvariant p) (h : Throughout p w) {i : Nat} {a : Action}
    (hs : actTask w i a = some w') : Throughout p w' := by
  obtain ⟨t, entry, effect, ht, he, hact, rfl⟩ := actTask_eq_some.mp hs
  refine ⟨h.1.withEffect ht effect, ?_⟩
  intro e entry' he'
  rw [World.withEffect] at he' ⊢
  by_cases hte : t.entry = e
  · subst hte
    rw [List.getElem?_set_self (h.1 t (List.mem_of_getElem? ht))] at he'
    cases he'
    obtain ⟨rest, hheld, hset⟩ := heldOn_frame ht
    have hold := h.2 t.entry entry he
    rw [hheld] at hold
    simp only [hset]
    exact hp.act _ _ _ _ _ _ hold hact
  · rw [List.getElem?_set_ne hte] at he'
    simp only [heldOn_set_of_ne ht hte]
    exact h.2 e entry' he'

/-- An entry keeps its name. -/
theorem names_kept {e : Event} (h : (machine config).step w e = some w') {k : Nat} {entry : PoolEntry}
    (hk : w.entries[k]? = some entry) : ∃ later, w'.entries[k]? = some later ∧ later.name = entry.name := by
  have hlt := (List.getElem?_eq_some_iff.mp hk).1
  cases e with
  | acquire name err =>
    cases h
    rcases acquire_cases config w name err with heq | ⟨id, -, heq⟩ | ⟨pc, -, -, heq⟩
    · rw [heq]
      exact ⟨entry, hk, rfl⟩
    · rw [heq]
      refine ⟨_, (List.getElem?_modify ..).trans (congrArg _ hk), ?_⟩
      dsimp only
      split <;> rfl
    · rw [heq]
      exact ⟨entry, (List.getElem?_append_left hlt).trans hk, rfl⟩
  | act i a =>
    obtain ⟨u, old, effect, hi, he, ha, rfl⟩ := actTask_eq_some.mp h
    by_cases hu : u.entry = k
    · subst hu
      cases hk.symm.trans he
      exact ⟨effect.entry, List.getElem?_set_self hlt, (acts_of_act ha).fixed.1⟩
    · exact ⟨entry, (List.getElem?_set_ne hu).trans hk, rfl⟩
  | tick secs nanos | evictIdle names | removeIf j | resetGauges j =>
    rw [(step_quiet h (by simp) (by simp)).1]
    exact ⟨entry, hk, rfl⟩

/-- The map leads to entries of the names it holds. -/
def Current (w : World) : Prop :=
  ∀ name id, w.pools.get name = some id → ∃ entry, w.entries[id]? = some entry ∧ entry.name = name

theorem current_step {e : Event} (h : Current w) (hs : (machine config).step w e = some w') : Current w' := by
  have keep (hpools : ∀ name id, w'.pools.get name = some id → w.pools.get name = some id) : Current w' := by
    intro name id hid
    obtain ⟨entry, he, hn⟩ := h name id (hpools name id hid)
    obtain ⟨later, hl, hname⟩ := names_kept hs he
    exact ⟨later, hl, hname.trans hn⟩
  cases e with
  | acquire name err =>
    cases hs
    rcases acquire_cases config w name err with heq | ⟨id, -, heq⟩ | ⟨pc, -, -, heq⟩
    · exact keep fun other id hid => by rwa [heq] at hid
    · exact keep fun other id hid => by rwa [heq] at hid
    · rw [heq]
      intro other id hid
      rcases FiniteMap.get_insert_some.mp hid with ⟨rfl, rfl⟩ | ⟨-, hid⟩
      · exact ⟨_, List.getElem?_concat_length, rfl⟩
      · obtain ⟨entry, he, hn⟩ := h other id hid
        exact ⟨entry, (List.getElem?_append_left (List.getElem?_eq_some_iff.mp he).1).trans he, hn⟩
  | act i a =>
    apply keep
    obtain ⟨u, old, effect, -, -, -, rfl⟩ := actTask_eq_some.mp hs
    exact fun _ _ hid => hid
  | tick secs nanos =>
    apply keep
    cases hs
    exact fun _ _ hid => hid
  | evictIdle names =>
    apply keep
    cases hs
    exact fun _ _ hid => hid
  | removeIf j =>
    apply keep
    obtain ⟨_, _, _, _, _, rfl | ⟨_, _, _, _, _, rfl⟩⟩ := removeIf_cases hs
    · exact fun _ _ hid => hid
    · exact fun _ _ hid => (FiniteMap.get_remove_some.mp hid).2
  | resetGauges j =>
    apply keep
    obtain ⟨_, -, hs⟩ := Option.bind_eq_some_iff.mp hs
    obtain ⟨_, -, hs⟩ := Option.bind_eq_some_iff.mp hs
    cases hs
    exact fun _ _ hid => hid

def Configured (config : FiniteMap String PoolConfig) (w : World) : Prop :=
  ∀ entry ∈ w.entries, config.get entry.name = some entry.config

private theorem configured_step {e : Event} (h : Configured config w) (hs : (machine config).step w e = some w') : Configured config w' := by
  cases e with
  | acquire name err =>
    cases hs
    rcases acquire_cases config w name err with heq | ⟨id, -, heq⟩ | ⟨pc, hpc, -, heq⟩
    · rw [heq]
      exact h
    · rw [heq]
      intro entry he
      obtain ⟨k, hk⟩ := List.mem_iff_getElem?.mp he
      rw [List.getElem?_modify] at hk
      obtain ⟨old, hold, rfl⟩ := Option.map_eq_some_iff.mp hk
      have hconfig := h old (List.mem_of_getElem? hold)
      split <;> exact hconfig
    · rw [heq]
      intro entry he
      rcases List.mem_append.mp he with he | he
      · exact h entry he
      · rw [List.mem_singleton.mp he]
        exact hpc
  | act i a =>
    obtain ⟨t, old, effect, -, hold, hact, rfl⟩ := actTask_eq_some.mp hs
    obtain ⟨hname, hconfig, -⟩ := (acts_of_act hact).fixed
    intro entry he
    rcases List.mem_or_eq_of_mem_set he with he | rfl
    · exact h entry he
    · rw [hname, hconfig]
      exact h old (List.mem_of_getElem? hold)
  | tick secs nanos | evictIdle names | removeIf j | resetGauges j =>
    rw [Configured, (step_quiet hs (by simp) (by simp)).1]
    exact h

theorem configured_run {events : List Event} (h : (machine config).run .new events = some w) : Configured config w := by
  apply Machine.run_invariant (fun _ _ _ hi hs => configured_step hi hs) h
  rintro entry ⟨⟩

private theorem Current.lt (h : Current w) {name : String} {id : Nat} (hid : w.pools.get name = some id) : id < w.entries.length := by
  obtain ⟨entry, he, -⟩ := h name id hid
  exact (List.getElem?_eq_some_iff.mp he).1

theorem Throughout.step (hp : EntryInvariant p) (hc : Current w) (h : Throughout p w) {e : Event}
    (hs : (machine config).step w e = some w') : Throughout p w' := by
  have quiet (hacq : ∀ name err, e ≠ .acquire name err) (hact : ∀ i a, e ≠ .act i a) : Throughout p w' := by
    obtain ⟨he, ht, hi⟩ := step_quiet hs hacq hact
    rw [Throughout, Homed, he, ht]
    exact ⟨h.1, fun e entry hentry => hp.later _ _ _ _ hi (h.2 e entry hentry)⟩
  cases e with
  | acquire name err =>
    cases hs
    rcases acquire_cases config w name err with heq | ⟨id, hid, heq⟩ | ⟨pc, _, _, heq⟩
    · rw [heq]; exact h
    · rw [heq]; exact h.reuse hp (hc.lt hid)
    · rw [heq]; exact h.build hp name pc
  | act i a => exact h.actTask hp hs
  | tick secs nanos => exact quiet nofun nofun
  | evictIdle names => exact quiet nofun nofun
  | removeIf j => exact quiet nofun nofun
  | resetGauges j => exact quiet nofun nofun

/-- The rule: an entry invariant holds throughout every run. -/
theorem EntryInvariant.run (hp : EntryInvariant p) {events : List Event}
    (hrun : (machine config).run .new events = some w) : Throughout p w := by
  have h : Current w ∧ Throughout p w :=
    Machine.run_invariant (I := fun w => Current w ∧ Throughout p w)
      (fun _ _ _ h hs => ⟨current_step h.1 hs, h.2.step hp h.1 hs⟩) hrun ⟨nofun, throughout_new⟩
  exact h.2

/-- The rule for facts about single tasks: a new task has it, and if the step is
one of a task, it keeps it for that task. -/
theorem stage_step {q : Stage → Prop} (hentered : q .entered) {e : Event}
    (hact : ∀ i a t entry effect, e = .act i a → w.entries[t.entry]? = some entry →
      w.tasks[i]? = some t → PoolManager.act w.instant entry a t.stage = some effect → q t.stage → q effect.stage)
    (h : ∀ t ∈ w.tasks, q t.stage) (hs : (machine config).step w e = some w') : ∀ t ∈ w'.tasks, q t.stage := by
  have enter {id since : Nat} : ∀ t ∈ w.tasks ++ [⟨id, since, .entered⟩], q t.stage := by
    intro t ht
    rcases List.mem_append.mp ht with ht | ht
    · exact h t ht
    · rw [List.mem_singleton.mp ht]
      exact hentered
  have quiet (hacq : ∀ name err, e ≠ .acquire name err) (hact : ∀ i a, e ≠ .act i a) : ∀ t ∈ w'.tasks, q t.stage := by
    rw [(step_quiet hs hacq hact).2.1]
    exact h
  cases e with
  | acquire name err =>
    cases hs
    rcases acquire_cases config w name err with heq | ⟨id, hid, heq⟩ | ⟨pc, _, _, heq⟩
    · rw [heq]; exact h
    · rw [heq]; exact enter
    · rw [heq]; exact enter
  | act i a =>
    obtain ⟨t, entry, effect, ht, he, heff, rfl⟩ := actTask_eq_some.mp hs
    intro u hu
    rcases List.mem_or_eq_of_mem_set hu with hu | rfl
    · exact h u hu
    · exact hact i a t entry effect rfl he ht heff (h t (List.mem_of_getElem? ht))
  | tick secs nanos => exact quiet nofun nofun
  | evictIdle names => exact quiet nofun nofun
  | removeIf j => exact quiet nofun nofun
  | resetGauges j => exact quiet nofun nofun

end Rule
end Srh.Adapters.PoolManager
