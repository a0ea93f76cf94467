import Srh.Adapters.PoolClients

/-! What a step of the pool manager leaves of the tasks and the entries that it is not
about. -/
namespace Srh.Adapters.PoolManager
open Srh.Lib Srh.Domain

variable {config : FiniteMap String PoolConfig} {w w' : World}

/-- A task changes only by steps of its own. -/
theorem tasks_kept {e : Event} (h : (machine config).step w e = some w') {j : Nat} {t : Task}
    (hne : ∀ a, e ≠ .act j a) (ht : w.tasks[j]? = some t) : w'.tasks[j]? = some t := by
  have hlt := (List.getElem?_eq_some_iff.mp ht).1
  cases e with
  | acquire name err =>
    cases h
    rcases acquire_cases config w name err with heq | ⟨id, -, heq⟩ | ⟨pc, -, -, heq⟩
    · rw [heq]
      exact ht
    · rw [heq]
      exact (List.getElem?_append_left hlt).trans ht
    · rw [heq]
      exact (List.getElem?_append_left hlt).trans ht
  | act i a =>
    obtain ⟨u, entry, effect, hi, he, ha, rfl⟩ := actTask_eq_some.mp h
    have hij : i ≠ j := by
      rintro rfl
      exact hne a rfl
    exact (List.getElem?_set_ne hij).trans ht
  | tick secs nanos | evictIdle names | removeIf k | resetGauges k =>
    rw [(step_quiet h (by simp) (by simp)).2.1]
    exact ht

/-- No task is ever forgotten. -/
theorem tasks_length_le {e : Event} (h : (machine config).step w e = some w') : w.tasks.length ≤ w'.tasks.length := by
  cases e with
  | acquire name err =>
    cases h
    rcases acquire_cases config w name err with heq | ⟨id, -, heq⟩ | ⟨pc, -, -, heq⟩
    · rw [heq]
    · simp [heq]
    · simp [heq]
  | act i a =>
    obtain ⟨u, entry, effect, -, -, -, rfl⟩ := actTask_eq_some.mp h
    exact (List.length_set ..).ge
  | tick secs nanos | evictIdle names | removeIf k | resetGauges k => rw [(step_quiet h (by simp) (by simp)).2.1]

/-- An acquisition that finds or builds its entry makes a task on it. -/
theorem getOrBuild_task {name : String} {buildError : Option String} {built : World × Nat} (h : Current w)
    (hb : getOrBuild config w name buildError = .ok built) :
    ∃ entry, (acquire config w name buildError).entries[built.2]? = some entry ∧ entry.name = name ∧
      (acquire config w name buildError).tasks = w.tasks ++ [⟨built.2, w.unixSecs, .entered⟩] := by
  rw [acquire, hb]
  rw [getOrBuild] at hb
  split at hb
  · cases hb
  · split at hb
    · rename_i id hid
      cases hb
      obtain ⟨entry, he, hn⟩ := h name id hid
      refine ⟨_, (List.getElem?_modify ..).trans (congrArg _ he), ?_, rfl⟩
      dsimp only
      split <;> exact hn
    · split at hb
      · cases hb
      · cases hb
        exact ⟨_, List.getElem?_concat_length, rfl, rfl⟩

section Clients
variable {tasks : List Task} {i j : Nat} {t u : Task}

/-- Two tasks of one entry hold their guards side by side. -/
theorem held_pair_le (hi : tasks[i]? = some t) (hj : tasks[j]? = some u) (hij : i ≠ j) (he : u.entry = t.entry) :
    (t.stage.held : Multiset Resource) + u.stage.held ≤ heldOn tasks t.entry := by
  obtain ⟨rest, hall, hset⟩ := heldOn_frame hi
  -- without the guards of the one task, those of the other are still there
  have hj' : (tasks.set i { t with stage := .dropping [] none })[j]? = some u := by rwa [List.getElem?_set_ne hij]
  obtain ⟨others, hrest, -⟩ := heldOn_frame hj'
  rw [he, hset, Stage.held, Multiset.coe_nil, zero_add] at hrest
  rw [hall, hrest, ← add_assoc]
  exact Multiset.le_add_right _ _

/-- No two tasks hold the same client of an entry. -/
theorem Leased.exclusive {entry : PoolEntry} (h : Leased entry (heldOn tasks t.entry)) (hi : tasks[i]? = some t)
    (hj : tasks[j]? = some u) (hij : i ≠ j) (he : u.entry = t.entry) {client : Nat} (ht : .client client ∈ t.stage.held) :
    .client client ∉ u.stage.held := by
  intro hu
  have hle := Multiset.count_le_of_le (.client client) (held_pair_le hi hj hij he)
  have htaken := h.flagged.taken client
  rw [Multiset.count_filter, if_pos (by rfl)] at htaken
  rw [Multiset.count_add, Multiset.coe_count, Multiset.coe_count] at hle
  have hone := List.one_le_count_iff.mpr ht
  have htwo := List.one_le_count_iff.mpr hu
  split at htaken <;> omega

end Clients
end Srh.Adapters.PoolManager
