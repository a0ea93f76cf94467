import Srh.Adapters.PoolLedger

/-! Capacity across eviction. An entry that is no longer in the map has no request
left that could use it, so the permits of a pool name are those of its current
entry. -/
namespace Srh.Adapters.PoolManager
open Srh.Lib Srh.Domain Srh.Domain.Breaker

/-- The task can neither hold nor come to hold a permit or a place in the queue. -/
def Stage.Retired (stage : Stage) : Prop :=
  stage.inTransit = false ∧ .permit ∉ stage.held ∧ .waiter ∉ stage.held

/-- No request spends more than the eviction window between get_or_build and its
waiter increment. -/
def Prompt (w : World) : Prop :=
  ∀ t ∈ w.tasks, t.stage.inTransit = true → w.unixSecs ≤ t.since + idleEvictionSecs

instance (w : World) : Decidable (Prompt w) := inferInstanceAs (Decidable (∀ t ∈ w.tasks, _))

section Stages
variable {n : Nat} {entry : PoolEntry} {stage : Stage} {effect : Effect}

private theorem Acts.retired (h : Acts n entry stage effect) (hs : stage.Retired) : effect.stage.Retired := by
  obtain ⟨htransit, hpermit, hwaiter⟩ := hs
  cases h with
  | refused secs inner _ => cases htransit
  | admitted admission inner _ => cases htransit
  | enqueued p _ => cases htransit
  | granted p _ => exact absurd List.mem_cons_self hwaiter
  | unwaited p => exact absurd List.mem_cons_self hpermit
  | counted p => exact absurd List.mem_cons_self hpermit
  | leased _ p client next hs _ =>
    rcases hs with rfl | ⟨_, rfl⟩
    all_goals exact absurd List.mem_cons_self hpermit
  | waits p start next _ => exact absurd List.mem_cons_self hpermit
  | recorded p client failed => simp [Stage.held] at hpermit
  | left _ error => exact ⟨rfl, hpermit, hwaiter⟩
  | dropped r held error =>
    exact ⟨rfl, fun h => hpermit (List.mem_cons_of_mem r h), fun h => hwaiter (List.mem_cons_of_mem r h)⟩

/-- No guard is held twice. -/
theorem Acts.nodup (h : Acts n entry stage effect) (hs : stage.held.Nodup) : effect.stage.held.Nodup := by
  cases h with
  | left _ error => exact hs
  | dropped r held error => exact (List.nodup_cons.mp hs).2
  | _ => simp [Stage.held]

end Stages

theorem nodup_step {config : FiniteMap String PoolConfig} {w w' : World} (h : ∀ t ∈ w.tasks, t.stage.held.Nodup) {e : Event}
    (hs : (machine config).step w e = some w') : ∀ t ∈ w'.tasks, t.stage.held.Nodup :=
  stage_step (q := fun stage => stage.held.Nodup) List.nodup_nil (fun _ _ _ _ _ _ _ _ hact => (acts_of_act hact).nodup) h hs

structure Fenced (w : World) : Prop where
  since_le : ∀ t ∈ w.tasks, t.since ≤ w.unixSecs
  fresh : ∀ t ∈ w.tasks, ∀ entry, w.entries[t.entry]? = some entry → t.since ≤ entry.lastUsed
  reading : ∀ v ∈ w.evictors, v.now ≤ w.unixSecs
  retired : ∀ (e : Nat) entry, w.entries[e]? = some entry → w.pools.get entry.name ≠ some e →
    ∀ t ∈ w.tasks, t.entry = e → t.stage.Retired

section Step
variable {config : FiniteMap String PoolConfig} {w w' : World}

private theorem fenced_new : Fenced .new := ⟨nofun, nofun, nofun, nofun⟩

private theorem Fenced.reuse (h : Fenced w) (hcurrent : Current w) {name : String} {id : Nat} (hid : w.pools.get name = some id) :
    Fenced { w with
      entries := w.entries.modify id fun entry => { entry with lastUsed := w.unixSecs }
      tasks := w.tasks ++ [⟨id, w.unixSecs, .entered⟩] } := by
  -- an entry after the step, from the entry before it
  have before {e : Nat} {entry : PoolEntry}
      (he : (w.entries.modify id fun entry => { entry with lastUsed := w.unixSecs })[e]? = some entry) :
      ∃ old, w.entries[e]? = some old ∧ entry.name = old.name ∧
        ((e = id ∧ entry.lastUsed = w.unixSecs) ∨ (e ≠ id ∧ entry.lastUsed = old.lastUsed)) := by
    rw [List.getElem?_modify] at he
    obtain ⟨old, hold, rfl⟩ := Option.map_eq_some_iff.mp he
    refine ⟨old, hold, ?_⟩
    by_cases hei : id = e
    · rw [if_pos hei]
      exact ⟨rfl, .inl ⟨hei.symm, rfl⟩⟩
    · rw [if_neg hei]
      exact ⟨rfl, .inr ⟨fun he => hei he.symm, rfl⟩⟩
  refine ⟨?_, ?_, h.reading, ?_⟩
  · intro t ht
    rcases List.mem_append.mp ht with ht | ht
    · exact h.since_le t ht
    · rw [List.mem_singleton.mp ht]
  · intro t ht entry he
    obtain ⟨old, hold, -, hu | hu⟩ := before he
    · rw [hu.2]
      rcases List.mem_append.mp ht with ht | ht
      · exact h.since_le t ht
      · rw [List.mem_singleton.mp ht]
    · rw [hu.2]
      rcases List.mem_append.mp ht with ht | ht
      · exact h.fresh t ht old hold
      · rw [List.mem_singleton.mp ht] at hu
        exact absurd rfl hu.1
  · intro e entry he hne t ht hte
    obtain ⟨old, hold, hn, -⟩ := before he
    rw [hn] at hne
    rcases List.mem_append.mp ht with ht | ht
    · exact h.retired e old hold hne t ht hte
    · -- the new task is on the current entry
      rw [List.mem_singleton.mp ht] at hte
      obtain ⟨cur, hcur, hname⟩ := hcurrent name id hid
      subst hte
      rw [hold] at hcur
      cases hcur
      rw [hname] at hne
      exact absurd hid hne

private theorem Fenced.build (h : Fenced w) (hhome : Homed w) {name : String} (poolConfig : PoolConfig)
    (hnone : w.pools.get name = none) :
    Fenced { w with
      entries := w.entries ++ [.build name poolConfig w.unixSecs]
      pools := w.pools.insert name w.entries.length
      permitsInUse := setGauge w.permitsInUse name 0
      tasks := w.tasks ++ [⟨w.entries.length, w.unixSecs, .entered⟩] } := by
  have before {e : Nat} {entry : PoolEntry}
      (he : (w.entries ++ [PoolEntry.build name poolConfig w.unixSecs])[e]? = some entry) :
      w.entries[e]? = some entry ∨ (e = w.entries.length ∧ entry = .build name poolConfig w.unixSecs) := by
    by_cases hlt : e < w.entries.length
    · rw [List.getElem?_append_left hlt] at he
      exact .inl he
    · rw [List.getElem?_append_right (not_lt.mp hlt), List.getElem?_singleton] at he
      split at he
      · cases he
        exact .inr ⟨by omega, rfl⟩
      · cases he
  refine ⟨?_, ?_, h.reading, ?_⟩
  · intro t ht
    rcases List.mem_append.mp ht with ht | ht
    · exact h.since_le t ht
    · rw [List.mem_singleton.mp ht]
  · intro t ht entry he
    rcases List.mem_append.mp ht with ht | ht
    · rcases before he with he | ⟨hlen, _⟩
      · exact h.fresh t ht entry he
      · exact absurd hlen (hhome t ht).ne
    · rw [List.mem_singleton.mp ht] at he ⊢
      rcases before he with he | ⟨_, rfl⟩
      · exact absurd (List.getElem?_eq_some_iff.mp he).1 (lt_irrefl _)
      · exact le_rfl
  · intro e entry he hne t ht hte
    rcases before he with he | ⟨rfl, rfl⟩
    · have hold : w.pools.get entry.name ≠ some e := by
        by_cases hn : entry.name = name
        · rw [hn, hnone]
          nofun
        · rw [FiniteMap.get_insert, if_neg hn] at hne
          exact hne
      rcases List.mem_append.mp ht with ht | ht
      · exact h.retired e entry he hold t ht hte
      · rw [List.mem_singleton.mp ht] at hte
        exact absurd hte (List.getElem?_eq_some_iff.mp he).1.ne'
    · exact absurd (FiniteMap.get_insert_self ..) hne

private theorem Fenced.actTask (h : Fenced w) {i : Nat} {a : Action} (hs : actTask w i a = some w') :
    Fenced w' := by
  obtain ⟨t, entry, effect, ht, he, hact, rfl⟩ := actTask_eq_some.mp hs
  have hacts := acts_of_act hact
  obtain ⟨hname, -, hused⟩ := hacts.fixed
  have hlt := (List.getElem?_eq_some_iff.mp he).1
  have htm := List.mem_of_getElem? ht
  have before {e : Nat} {new : PoolEntry} (hnew : (w.entries.set t.entry effect.entry)[e]? = some new) :
      ∃ old, w.entries[e]? = some old ∧ new.name = old.name ∧ new.lastUsed = old.lastUsed := by
    by_cases hte : t.entry = e
    · subst hte
      rw [List.getElem?_set_self hlt] at hnew
      cases hnew
      exact ⟨entry, he, hname, hused⟩
    · rw [List.getElem?_set_ne hte] at hnew
      exact ⟨new, hnew, rfl, rfl⟩
  have tasks {u : Task} (hu : u ∈ w.tasks.set i { t with stage := effect.stage }) :
      u ∈ w.tasks ∨ u = { t with stage := effect.stage } := List.mem_or_eq_of_mem_set hu
  simp only [World.withEffect]
  refine ⟨?_, ?_, h.reading, ?_⟩
  · intro u hu
    rcases tasks hu with hu | rfl
    · exact h.since_le u hu
    · exact h.since_le t htm
  · intro u hu new hnew
    obtain ⟨old, hold, -, hl⟩ := before hnew
    rw [hl]
    rcases tasks hu with hu | rfl
    · exact h.fresh u hu old hold
    · exact h.fresh t htm old hold
  · intro e new hnew hne u hu hue
    obtain ⟨old, hold, hn, -⟩ := before hnew
    rw [hn] at hne
    rcases tasks hu with hu | rfl
    · exact h.retired e old hold hne u hu hue
    · exact hacts.retired (h.retired e old hold hne t htm hue)

/-- Nothing is held on an entry whose counters are at rest. -/
private theorem not_mem_of_count {w : World} {e : Nat} {r : Resource} (h : (heldOn w.tasks e).count r = 0) {t : Task}
    (ht : t ∈ w.tasks) (hte : t.entry = e) : r ∉ t.stage.held := by
  obtain ⟨i, hi⟩ := List.mem_iff_getElem?.mp ht
  subst hte
  obtain ⟨rest, hheld, -⟩ := heldOn_frame hi
  rw [hheld, Multiset.count_add, Multiset.coe_count] at h
  exact List.count_eq_zero.mp (Nat.add_eq_zero_iff.mp h).1

/-- An evictable entry has only retired tasks, as long as no request in transit
has been so for longer than the window. -/
private theorem retired_of_evictable (h : Fenced w) (hb : Throughout (fun _ => Balanced) w) (hprompt : Prompt w)
    {v : Evictor} (hv : v ∈ w.evictors) {e : Nat} {entry : PoolEntry} (he : w.entries[e]? = some entry)
    (hev : entry.evictable v.now = true) {t : Task} (ht : t ∈ w.tasks) (hte : t.entry = e) : t.stage.Retired := by
  obtain ⟨hold, hfull, hnone⟩ := of_decide_eq_true hev
  obtain ⟨hpermits, hwaiters, -⟩ := hb.2 e entry he
  refine ⟨?_, not_mem_of_count (by omega) ht hte, not_mem_of_count (by omega) ht hte⟩
  by_contra htransit
  have hsoon := hprompt t ht (Bool.eq_true_of_not_eq_false htransit)
  have hread := h.reading v hv
  have hfresh := h.fresh t ht entry (by rw [hte]; exact he)
  omega

private theorem Fenced.step (h : Fenced w) (hcurrent : Current w) (hb : Throughout (fun _ => Balanced) w) (hprompt : Prompt w) {e : Event}
    (hs : (machine config).step w e = some w') : Fenced w' := by
  cases e with
  | tick secs nanos =>
    cases hs
    exact ⟨fun t ht => (h.since_le t ht).trans (Nat.le_add_right ..), h.fresh,
      fun v hv => (h.reading v hv).trans (Nat.le_add_right ..), h.retired⟩
  | acquire name err =>
    cases hs
    rcases acquire_cases config w name err with heq | ⟨id, hid, heq⟩ | ⟨pc, -, hnone, heq⟩
    · rw [heq]; exact h
    · rw [heq]; exact h.reuse hcurrent hid
    · rw [heq]; exact h.build hb.1 pc hnone
  | act i a => exact h.actTask hs
  | evictIdle names =>
    cases hs
    refine ⟨h.since_le, h.fresh, ?_, h.retired⟩
    intro v hv
    rcases List.mem_append.mp hv with hv | hv
    · exact h.reading v hv
    · rw [List.mem_singleton.mp hv]
  | removeIf j =>
    obtain ⟨v, name, names, hv, _, hcase⟩ := removeIf_cases hs
    have hreading (closing : Option String) : ∀ u ∈ w.evictors.set j ⟨v.now, names, closing⟩, u.now ≤ w.unixSecs := by
      intro u hu
      rcases List.mem_or_eq_of_mem_set hu with hu | rfl
      · exact h.reading u hu
      · exact h.reading v (List.mem_of_getElem? hv)
    rcases hcase with rfl | ⟨id, entry, hid, hentry, hev, rfl⟩
    · exact ⟨h.since_le, h.fresh, hreading none, h.retired⟩
    · refine ⟨h.since_le, h.fresh, hreading _, ?_⟩
      intro e old hold hne t ht hte
      by_cases heq : w.pools.get old.name = some e
      · -- the entry that has just been removed
        have hn : old.name = name := by
          by_contra hn
          rw [FiniteMap.get_remove, if_neg hn] at hne
          exact hne heq
        rw [hn, hid] at heq
        cases heq
        exact retired_of_evictable h hb hprompt (List.mem_of_getElem? hv) hentry hev ht hte
      · exact h.retired e old hold heq t ht hte
  | resetGauges j =>
    obtain ⟨v, hv, hs⟩ := Option.bind_eq_some_iff.mp hs
    obtain ⟨name, _, hs⟩ := Option.bind_eq_some_iff.mp hs
    cases hs
    refine ⟨h.since_le, h.fresh, ?_, h.retired⟩
    intro u hu
    rcases List.mem_or_eq_of_mem_set hu with hu | rfl
    · exact h.reading u hu
    · exact h.reading v (List.mem_of_getElem? hv)

/-- Along a prompt run everything above holds together. -/
theorem fenced_run {events : List Event} (hrun : (machine config).run .new events = some w)
    (hprompt : (machine config).Along (fun w _ => Prompt w) .new events) : Current w ∧ Throughout (fun _ => Balanced) w ∧ Fenced w :=
  hprompt.invariant (I := fun w => Current w ∧ Throughout (fun _ => Balanced) w ∧ Fenced w)
    (fun _ _ _ h hp hs => ⟨current_step h.1 hs, h.2.1.step balanced_invariant h.1 hs, h.2.2.step h.1 h.2.1 hp hs⟩)
    hrun ⟨nofun, throughout_new, fenced_new⟩

end Step

def World.waiting (w : World) (e : Nat) : Nat :=
  w.tasks.countP fun t => t.entry = e ∧ .waiter ∈ t.stage.held

def World.Evicted (w : World) (e : Nat) : Prop :=
  ∃ entry, w.entries[e]? = some entry ∧ w.pools.get entry.name ≠ some e

/-- The permits held under a pool name, on its current entry and on all that were
evicted. -/
def World.permitsHeld (w : World) (name : String) : Nat :=
  w.tasks.countP fun t => (w.entries[t.entry]?).any (·.name = name) ∧ .permit ∈ t.stage.held

/-- The guards of one kind held on an entry, counted by their holders. -/
private theorem count_eq_countP {w : World} (h : ∀ t ∈ w.tasks, t.stage.held.Nodup) (e : Nat) (r : Resource) :
    (heldOn w.tasks e).count r = w.tasks.countP fun t => t.entry = e ∧ r ∈ t.stage.held := by
  rw [← tally_ite, heldOn]
  refine (map_tally (Multiset.countAddMonoidHom r) _ w.tasks).trans (tally_congr fun t ht => ?_)
  by_cases hte : t.entry = e
  · by_cases hr : r ∈ t.stage.held
    · rw [if_pos hte, if_pos ⟨hte, hr⟩]
      exact (Multiset.coe_count ..).trans (List.count_eq_one_of_mem (h t ht) hr)
    · rw [if_pos hte, if_neg fun hc => hr hc.2]
      exact (Multiset.coe_count ..).trans (List.count_eq_zero.mpr hr)
  · rw [if_neg hte, if_neg fun hc => hte hc.1]
    rfl

/-- Only the current entry of a name has permits out. -/
private theorem permitsHeld_le {config : FiniteMap String PoolConfig} {w : World} (hf : Fenced w) (hcurrent : Current w)
    (hconfigured : Configured config w) (hnodup : ∀ t ∈ w.tasks, t.stage.held.Nodup) (hb : Throughout (fun _ => Balanced) w) {name : String} {poolConfig : PoolConfig}
    (hc : config.get name = some poolConfig) : w.permitsHeld name ≤ poolConfig.maxConnections := by
  have held {t : Task} (ht : t ∈ w.tasks)
      (hp : (w.entries[t.entry]?).any (·.name = name) ∧ .permit ∈ t.stage.held) : w.pools.get name = some t.entry := by
    obtain ⟨entry, he, hn⟩ := (Option.any_eq_true ..).mp hp.1
    by_contra hne
    refine (hf.retired t.entry entry he ?_ t ht rfl).2.1 hp.2
    rw [of_decide_eq_true hn]
    exact hne
  cases hcur : w.pools.get name with
  | none =>
    have hzero : w.permitsHeld name = 0 := by
      refine List.countP_eq_zero.mpr fun t ht hp => ?_
      rw [held ht (of_decide_eq_true hp)] at hcur
      cases hcur
    rw [hzero]
    exact Nat.zero_le _
  | some id =>
    obtain ⟨entry, he, hn⟩ := hcurrent name id hcur
    have hconfig := hconfigured entry (List.mem_of_getElem? he)
    rw [hn, hc] at hconfig
    cases hconfig
    calc w.permitsHeld name
        ≤ w.tasks.countP fun t => t.entry = id ∧ .permit ∈ t.stage.held := by
          refine List.countP_mono_left fun t ht hp => ?_
          have hid := held ht (of_decide_eq_true hp)
          rw [hcur] at hid
          exact decide_eq_true ⟨(Option.some.inj hid).symm, (of_decide_eq_true hp).2⟩
      _ = (heldOn w.tasks id).count .permit := (count_eq_countP hnodup id .permit).symm
      _ ≤ entry.config.maxConnections := by
          have := (hb.2 id entry he).permits
          omega

/-- Capacity across eviction, for every interleaving of requests and eviction
passes in which requests reach the queue promptly. -/
theorem capacity_across_eviction (config : FiniteMap String PoolConfig) (events : List Event) (w : World)
    (hrun : (machine config).run .new events = some w)
    (hprompt : (machine config).Along (fun w _ => Prompt w) .new events) :
    (∀ (e : Nat) entry, w.entries[e]? = some entry →
      entry.waiters = w.waiting e ∧ 0 ≤ entry.waiters ∧ entry.waiters ≤ entry.config.maxWaiters) ∧
    (∀ e, w.Evicted e → ∀ t ∈ w.tasks, t.entry = e →
      .permit ∉ t.stage.held ∧ .waiter ∉ t.stage.held ∧ t.stage.inTransit = false) ∧
    ∀ name poolConfig, config.get name = some poolConfig → w.permitsHeld name ≤ poolConfig.maxConnections := by
  obtain ⟨hcurrent, hb, hf⟩ := fenced_run hrun hprompt
  have hconfigured := configured_run hrun
  have hnodup : ∀ t ∈ w.tasks, t.stage.held.Nodup :=
    Machine.run_invariant (I := fun w => ∀ t ∈ w.tasks, t.stage.held.Nodup) (fun _ _ _ h hs => nodup_step h hs) hrun nofun
  refine ⟨?_, ?_, fun name poolConfig hc => permitsHeld_le hf hcurrent hconfigured hnodup hb hc⟩
  · intro e entry he
    obtain ⟨-, hw, hle⟩ := hb.2 e entry he
    have hcount : entry.waiters = w.waiting e := by
      rw [hw, count_eq_countP hnodup]
      rfl
    exact ⟨hcount, by omega, hle⟩
  · rintro e ⟨entry, he, hne⟩ t ht hte
    obtain ⟨htransit, hpermit, hwaiter⟩ := hf.retired e entry he hne t ht hte
    exact ⟨hpermit, hwaiter, htransit⟩

def singleConnection : FiniteMap String PoolConfig :=
  FiniteMap.empty.insert "main" (.new "redis://localhost" 1 2000 500 none none)

def evictThenRebuild : List Event :=
  [.acquire "main" none, .act 0 .tryAdmit, .act 0 .enqueue, .act 0 .grant, .act 0 .unwait, .act 0 .countInUse,
    .act 0 .acquireClient, .act 0 (.complete []), .act 0 .finish, .act 0 .drop, .act 0 .drop, .act 0 .drop,
    .act 0 .drop, .tick 901 0, .evictIdle ["main"], .removeIf 0, .acquire "main" none, .act 1 .tryAdmit,
    .act 1 .enqueue, .act 1 .grant]

theorem capacity_across_eviction_rebuild :
    ∃ w, (machine singleConnection).run .new evictThenRebuild = some w ∧ w.Evicted 0 ∧ w.permitsHeld "main" = 1 ∧
      ∀ name poolConfig, singleConnection.get name = some poolConfig →
        w.permitsHeld name ≤ poolConfig.maxConnections := by
  have hsome : ((machine singleConnection).run .new evictThenRebuild).map
      (fun w => (w.entries[0]?.map (·.name), w.pools.get "main", w.permitsHeld "main")) =
        some (some "main", some 1, 1) := by decide +kernel
  obtain ⟨w, hw, hsome⟩ := Option.map_eq_some_iff.mp hsome
  simp only [Prod.mk.injEq] at hsome
  obtain ⟨hentry, hpool, hheld⟩ := hsome
  obtain ⟨entry, he, hn⟩ := Option.map_eq_some_iff.mp hentry
  refine ⟨w, hw, ⟨entry, he, by rw [hn, hpool]; decide⟩, hheld, ?_⟩
  exact (capacity_across_eviction singleConnection evictThenRebuild w hw (by decide +kernel)).2.2

end Srh.Adapters.PoolManager
