import Srh.Adapters.PoolClients

/-! The permits-in-use gauge against the permits that are held. The gauge belongs
to the pool name: every entry ever built under it adds to it, subtracts from it
and sets it to zero. -/
namespace Srh.Adapters.PoolManager
open Srh.Lib Srh.Domain Srh.Domain.Breaker

/-- What the task has added to the gauge and will subtract from it. A request that
waits for a client has added its part, but no guard yet subtracts it. -/
def Stage.gauged : Stage → Bool
  | .counted _ => true
  | .waitingClient _ _ => true
  | stage => stage.held.contains .inUse

def World.On (w : World) (name : String) (t : Task) : Prop := (w.entries[t.entry]?).map (·.name) = some name

instance (w : World) (name : String) (t : Task) : Decidable (w.On name t) := inferInstanceAs (Decidable (_ = _))

def World.gauged (w : World) (name : String) : Nat := w.tasks.countP fun t => w.On name t ∧ t.stage.gauged = true

/-- No task of the name is between a permit change and the matching gauge update. -/
def World.Settled (w : World) (name : String) : Prop :=
  ∀ t ∈ w.tasks, w.On name t → (.permit ∈ t.stage.held ↔ t.stage.gauged = true)

/-- The step does not drop a request of the name that waits for a client, and it
sets the gauge to zero, by building the pool or after evicting it, only while no
request of the name is counted. -/
def steady (name : String) (w : World) : Event → Bool
  | .act i .cancel => (w.tasks[i]?).all fun t => match t.stage with
    | .waitingClient _ _ => ¬ w.On name t
    | _ => true
  | .acquire n _ => n = name → w.pools.get n = none → w.gauged name = 0
  | .resetGauges j => (w.evictors[j]?).all fun v => v.closing = some name → w.gauged name = 0
  | _ => true

section Act
variable {n : Nat} {entry : PoolEntry} {a : Action} {stage : Stage} {effect : Effect}

private theorem dropResource_gauged (entry : PoolEntry) {r : Resource} {held : List Resource} (error : Option AcquireError)
    (hn : (r :: held).Nodup) :
    ((Stage.dropping (r :: held) error).gauged.toNat : Int) + (dropResource entry r).2 =
      (Stage.dropping held error).gauged.toNat := by
  have hnot := (List.nodup_cons.mp hn).1
  cases r with
  | inUse => simp [Stage.gauged, Stage.held, dropResource, List.contains_eq_mem, hnot]
  | executor p recorded => simp [Stage.gauged, Stage.held, dropResource]
  | permit | client | waiter | guard => simp [Stage.gauged, Stage.held, dropResource]

/-- What a step of a task adds to the gauge is its change in what the gauge counts,
except where a wait for a client is abandoned. -/
theorem act_gauged (h : act n entry a stage = some effect) (hn : stage.held.Nodup)
    (hc : a = .cancel → ∀ p start, stage ≠ .waitingClient p start) :
    (stage.gauged.toNat : Int) + effect.inUse = effect.stage.gauged.toNat := by
  revert h
  fun_cases act
  case case16 resource held error _ =>
    rintro ⟨⟩
    exact dropResource_gauged entry error hn
  case case17 hs =>
    rintro ⟨⟩
    cases stage with
    | waitingClient p start => exact absurd rfl (hc rfl p start)
    | queued | granted | leased => rfl
    | _ => cases hs
  all_goals
    rintro ⟨⟩ <;> rfl

end Act

private theorem on_iff_any {w : World} {name : String} {t : Task} :
    w.On name t ↔ (w.entries[t.entry]?).any (·.name = name) = true := by
  rw [World.On]
  cases w.entries[t.entry]? <;> simp

/-- A task that holds nothing is not counted. -/
theorem gauged_of_held_nil {stage : Stage} (h : stage.held = []) : stage.gauged = false := by
  cases stage with
  | entered => rfl
  | dropping held error =>
    have h : held = [] := h
    rw [h]
    rfl
  | _ => cases h

section Step
variable {config : FiniteMap String PoolConfig} {w w' : World} {name : String}

/-- Entries that keep their names leave what is counted as it is. -/
theorem countP_gauged (hon : ∀ t ∈ w.tasks, (w'.On name t ↔ w.On name t)) :
    w.tasks.countP (fun t => w'.On name t ∧ t.stage.gauged = true) = w.gauged name := by
  refine List.countP_congr fun t ht => ?_
  simp only [hon t ht]

/-- A new request counts for nothing. -/
theorem gauged_enter {id since : Nat} (ht : w'.tasks = w.tasks ++ [⟨id, since, .entered⟩])
    (hon : ∀ t ∈ w.tasks, (w'.On name t ↔ w.On name t)) : w'.gauged name = w.gauged name := by
  rw [World.gauged, ht, List.countP_append, countP_gauged hon]
  have hzero : [(⟨id, since, .entered⟩ : Task)].countP (fun t => w'.On name t ∧ t.stage.gauged = true) = 0 := by
    simp [Stage.gauged, Stage.held]
  rw [hzero, add_zero]

section Effect
variable {i : Nat} {t : Task} {entry : PoolEntry} {effect : Effect}

private theorem on_withEffect (he : w.entries[t.entry]? = some entry) (hname : effect.entry.name = entry.name) (u : Task) :
    (w.withEffect i t effect).On name u ↔ w.On name u := by
  rw [World.On, World.On, World.withEffect]
  by_cases hte : t.entry = u.entry
  · rw [← hte, List.getElem?_set_self (List.getElem?_eq_some_iff.mp he).1, he, Option.map_some, Option.map_some, hname]
  · rw [List.getElem?_set_ne hte]

/-- A step of one task changes only that task's part in the count. -/
theorem gauged_withEffect (ht : w.tasks[i]? = some t) (he : w.entries[t.entry]? = some entry)
    (hname : effect.entry.name = entry.name) :
    ∃ rest, w.gauged name = (if w.On name t ∧ t.stage.gauged = true then 1 else 0) + rest ∧
      (w.withEffect i t effect).gauged name = (if w.On name t ∧ effect.stage.gauged = true then 1 else 0) + rest := by
  obtain ⟨rest, hbefore, hafter⟩ :=
    tally_frame (fun u => if w.On name u ∧ u.stage.gauged = true then 1 else 0) ht
  refine ⟨rest, ?_, ?_⟩
  · rw [World.gauged, ← tally_ite]
    exact hbefore
  · rw [World.gauged]
    simp only [on_withEffect he hname]
    rw [← tally_ite]
    exact hafter { t with stage := effect.stage }

end Effect

private theorem gauge_act (h : w.permitsInUse name = w.gauged name) (hn : ∀ t ∈ w.tasks, t.stage.held.Nodup) {i : Nat}
    {a : Action} (hok : steady name w (.act i a) = true) (hs : actTask w i a = some w') :
    w'.permitsInUse name = w'.gauged name := by
  obtain ⟨t, entry, effect, ht, he, hact, rfl⟩ := actTask_eq_some.mp hs
  have hname := (acts_of_act hact).fixed.1
  obtain ⟨rest, hold, hnew⟩ := gauged_withEffect (w := w) ht he hname
  rw [hold] at h
  rw [hnew]
  have hon : w.On name t ↔ effect.entry.name = name := by
    rw [World.On, he, hname]
    exact Option.some_inj
  by_cases hmine : w.On name t
  · have hc : a = .cancel → ∀ p start, t.stage ≠ .waitingClient p start := by
      rintro rfl p start hstage
      simp [steady, ht, hstage, hmine] at hok
    have hstep := act_gauged hact (hn t (List.mem_of_getElem? ht)) hc
    have hshare (stage : Stage) : (if w.On name t ∧ stage.gauged = true then 1 else 0) = stage.gauged.toNat := by
      cases hg : stage.gauged <;> simp [hmine]
    rw [hshare] at h ⊢
    simp only [World.withEffect, setGauge, hon.mp hmine, if_true]
    omega
  · rw [if_neg fun hc => hmine hc.1] at h ⊢
    simp only [World.withEffect, setGauge, if_neg fun hsame => hmine (hon.mpr (Eq.symm hsame))]
    exact h

private theorem gauge_acquire (h : w.permitsInUse name = w.gauged name) (hhome : ∀ t ∈ w.tasks, t.entry < w.entries.length)
    {n : String} {err : Option String} (hok : steady name w (.acquire n err) = true) :
    (acquire config w n err).permitsInUse name = (acquire config w n err).gauged name := by
  rcases acquire_cases config w n err with heq | ⟨id, _, heq⟩ | ⟨pc, _, hnone, heq⟩
  · rw [heq]; exact h
  · rw [heq, gauged_enter (w := w) rfl]
    · exact h
    · intro t _
      rw [World.On, World.On, List.getElem?_modify]
      cases w.entries[t.entry]? with
      | none => exact Iff.rfl
      | some entry =>
        simp only [Option.map_eq_map, Option.map_some]
        split <;> exact Iff.rfl
  · have hsame : (acquire config w n err).gauged name = w.gauged name := by
      rw [heq]
      refine gauged_enter (w := w) rfl fun t ht => ?_
      rw [World.On, World.On, List.getElem?_append_left (hhome t ht)]
    rw [hsame, heq]
    by_cases hn : n = name
    · have hzero : w.gauged name = 0 := by
        subst hn
        simpa [steady, hnone] using hok
      rw [hzero]
      exact if_pos hn.symm
    · rw [← h]
      exact if_neg fun he => hn he.symm

private theorem gauge_reset (h : w.permitsInUse name = w.gauged name) {j : Nat}
    (hok : steady name w (.resetGauges j) = true) (hs : resetGauges w j = some w') :
    w'.permitsInUse name = w'.gauged name := by
  obtain ⟨v, hv, hs⟩ := Option.bind_eq_some_iff.mp hs
  obtain ⟨n, hclosing, hs⟩ := Option.bind_eq_some_iff.mp hs
  cases hs
  have hsame : World.gauged { w with
      permitsInUse := setGauge w.permitsInUse n 0
      evictors := w.evictors.set j { v with closing := none } } name = w.gauged name :=
    countP_gauged fun _ _ => Iff.rfl
  rw [hsame]
  by_cases hn : n = name
  · have hzero : w.gauged name = 0 := by
      subst hn
      simpa [steady, hv, hclosing] using hok
    rw [hzero]
    exact if_pos hn.symm
  · rw [← h]
    exact if_neg fun he => hn he.symm

private theorem gauge_step (h : w.permitsInUse name = w.gauged name) (hn : ∀ t ∈ w.tasks, t.stage.held.Nodup)
    (hhome : ∀ t ∈ w.tasks, t.entry < w.entries.length) {e : Event} (hok : steady name w e = true)
    (hs : (machine config).step w e = some w') : w'.permitsInUse name = w'.gauged name := by
  cases e with
  | tick secs nanos => cases hs; exact h
  | acquire n err => cases hs; exact gauge_acquire h hhome hok
  | act i a => exact gauge_act h hn hok hs
  | evictIdle names => cases hs; exact h
  | removeIf j =>
    obtain ⟨_, _, _, _, _, rfl | ⟨_, _, _, _, _, rfl⟩⟩ := removeIf_cases hs
    all_goals exact h
  | resetGauges j => exact gauge_reset h hok hs

private theorem gauge_run {events : List Event} (hrun : (machine config).run .new events = some w)
    (hok : (machine config).Along (fun w e => steady name w e = true) .new events) :
    w.permitsInUse name = w.gauged name := by
  have h := hok.invariant (I := fun w => (Current w ∧ Throughout (fun _ => Balanced) w) ∧
      (∀ t ∈ w.tasks, t.stage.held.Nodup) ∧ w.permitsInUse name = w.gauged name) ?_ hrun
    ⟨⟨nofun, throughout_new⟩, nofun, rfl⟩
  · exact h.2.2
  · rintro s e t ⟨⟨hcurrent, hbal⟩, hnodup, hgauge⟩ hok hs
    exact ⟨⟨current_step hcurrent hs, hbal.step balanced_invariant hcurrent hs⟩, nodup_step hnodup hs,
      gauge_step hgauge hnodup hbal.1 hok hs⟩

end Step

/-- In every run whose steps are steady for the pool name, the gauge of the name is
never negative, is the number of permits held under it whenever no task is between
a permit change and its gauge update, and is zero when no request of it holds
anything. -/
theorem gauge_exact (config : FiniteMap String PoolConfig) (events : List Event) (w : World) (name : String)
    (hrun : (machine config).run .new events = some w)
    (hok : (machine config).Along (fun w e => steady name w e = true) .new events) :
    0 ≤ w.permitsInUse name ∧ (w.Settled name → w.permitsInUse name = w.permitsHeld name) ∧
      ((∀ t ∈ w.tasks, w.On name t → t.stage.held = []) → w.permitsInUse name = 0) := by
  have h := gauge_run hrun hok
  rw [h]
  refine ⟨Int.natCast_nonneg _, fun hsettled => ?_, fun hidle => ?_⟩
  · rw [World.gauged, World.permitsHeld]
    congr 1
    refine List.countP_congr fun t ht => ?_
    simp only [decide_eq_true_eq, ← on_iff_any]
    exact and_congr_right fun hon => (hsettled t ht hon).symm
  · rw [Int.natCast_eq_zero, World.gauged, List.countP_eq_zero]
    intro t ht hcounted
    obtain ⟨hon, hg⟩ := of_decide_eq_true hcounted
    rw [gauged_of_held_nil (hidle t ht hon)] at hg
    cases hg

theorem gauge_exact_scanAfterRebuild :
    ∃ w, (machine singleConnection).run .new scanAfterRebuild = some w ∧ w.permitsHeld "main" = 1 ∧
      w.permitsInUse "main" = 1 ∧ 0 ≤ w.permitsInUse "main" := by
  have hsome : ((machine singleConnection).run .new scanAfterRebuild).map
      (fun w => (w.permitsHeld "main", w.permitsInUse "main")) = some (1, 1) := by decide +kernel
  obtain ⟨w, hw, hgauge⟩ := Option.map_eq_some_iff.mp hsome
  obtain ⟨hheld, hin⟩ := Prod.mk.inj hgauge
  exact ⟨w, hw, hheld, hin, (gauge_exact singleConnection _ w "main" hw (by decide +kernel)).1⟩

def release (task : Nat) : List Event :=
  [.act task (.complete []), .act task .finish, .act task .drop, .act task .drop, .act task .drop, .act task .drop]

/-- The evicted pool is rebuilt and in use when the eviction resets the gauge; or
a request is cancelled while it waits for a client. Either way the pool is idle in
the end, and the gauge is not zero. -/
theorem gauge_drifts :
    ((machine singleConnection).run .new (scanAfterRebuild ++ [.resetGauges 0] ++ release 1)).map
      (fun w => (w.permitsInUse "main", w.permitsHeld "main", w.tasks.map (·.stage))) =
        some (-1, 0, [.dropping [] none, .dropping [] none]) ∧
    ((machine singleConnection).run .new
      (scanBetweenReleases ++ [.act 0 .drop, .act 1 .cancel, .act 1 .drop, .act 1 .drop])).map
      (fun w => (w.permitsInUse "main", w.permitsHeld "main", w.tasks.map (·.stage))) =
        some (1, 0, [.dropping [] none, .dropping [] none]) := by
  decide +kernel

end Srh.Adapters.PoolManager
