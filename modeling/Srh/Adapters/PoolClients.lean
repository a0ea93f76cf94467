import Srh.Adapters.PoolCapacity

/-! The client leases of an entry. A PoolLease returns its semaphore permit before
its client, so a request that was given the permit may scan while the client is
still taken. -/
namespace Srh.Adapters.PoolManager
open Srh.Lib Srh.Domain Srh.Domain.Breaker

def Resource.isClient : Resource → Bool
  | .client _ => true
  | _ => false

def Stage.clients (stage : Stage) : List Resource := stage.held.filter Resource.isClient

/-- The requests of an entry that have returned their permit but not yet their client. -/
def World.halfReleased (w : World) (e : Nat) : Nat :=
  w.tasks.countP fun t => t.entry = e ∧ .permit ∉ t.stage.held ∧ t.stage.clients ≠ []

def World.clientless (w : World) (e : Nat) : Nat :=
  w.tasks.countP fun t => t.entry = e ∧ .permit ∈ t.stage.held ∧ t.stage.clients = []

section Scan
variable {entry : PoolEntry}

/-- A scan visits every client. -/
theorem scan_isSome_iff : entry.scan.2.isSome ↔ false ∈ entry.clientLeases := by
  simp only [PoolEntry.scan, List.find?_isSome, List.mem_map, List.mem_range, decide_eq_true_eq]
  constructor
  · rintro ⟨_, ⟨offset, _, rfl⟩, hfree⟩
    exact List.mem_of_getElem? hfree
  · intro hfree
    obtain ⟨i, hi⟩ := List.mem_iff_getElem?.mp hfree
    have hlt : i < entry.clientLeases.length := (List.getElem?_eq_some_iff.mp hi).1
    generalize entry.clientLeases.length = size at hlt
    have hstart : entry.nextClient % size < size := Nat.mod_lt _ (by omega)
    refine ⟨i, ⟨(i + size - entry.nextClient % size) % size, Nat.mod_lt _ (by omega), ?_⟩, hi⟩
    rw [Nat.add_mod_mod, Nat.add_sub_cancel' (by omega), Nat.add_mod_right, Nat.mod_eq_of_lt hlt]

private theorem free_iff (leases : List Bool) : false ∈ leases ↔ leases.count true < leases.length := by
  have hle : leases.count true ≤ leases.length := List.count_le_length
  rw [hle.lt_iff_ne, ne_eq, List.count_eq_length]
  simp

end Scan

/-- What a step does to the client leases. -/
theorem Acts.leases {n : Nat} {entry : PoolEntry} {stage : Stage} {effect : Effect} (h : Acts n entry stage effect) :
    (effect.entry.clientLeases = entry.clientLeases ∧ effect.stage.clients = stage.clients) ∨
    (∃ i, entry.clientLeases[i]? = some false ∧ effect.entry.clientLeases = entry.clientLeases.set i true ∧
      stage.clients = [] ∧ effect.stage.clients = [.client i]) ∨
    ∃ i, effect.entry.clientLeases = entry.clientLeases.set i false ∧
      stage.clients = .client i :: effect.stage.clients := by
  cases h with
  | leased _ p client next hs hfree =>
    refine .inr (.inl ⟨client, hfree, rfl, ?_, rfl⟩)
    rcases hs with rfl | ⟨_, rfl⟩ <;> rfl
  | dropped r held error =>
    cases r with
    | client i => exact .inr (.inr ⟨i, rfl, rfl⟩)
    | executor p recorded => cases recorded <;> exact .inl ⟨rfl, rfl⟩
    | inUse | permit | waiter | guard => exact .inl ⟨rfl, rfl⟩
  | _ => exact .inl ⟨rfl, rfl⟩

structure Flagged (leases : List Bool) (clients : Multiset Resource) : Prop where
  taken : ∀ i, clients.count (.client i) ≤ if leases[i]? = some true then 1 else 0
  busy : clients.card = leases.count true

section Flagged
variable {leases : List Bool} {clients : Multiset Resource} {i : Nat}

private theorem Flagged.take (h : Flagged leases clients) (hfree : leases[i]? = some false) :
    Flagged (leases.set i true) (.client i ::ₘ clients) := by
  obtain ⟨hi, hget⟩ := List.getElem?_eq_some_iff.mp hfree
  refine ⟨fun j => ?_, ?_⟩
  · have hj := h.taken j
    by_cases hji : i = j
    · subst hji
      rw [hfree, if_neg (by simp)] at hj
      rw [List.getElem?_set_self hi, if_pos rfl, Multiset.count_cons_self]
      omega
    · rw [List.getElem?_set_ne hji, Multiset.count_cons_of_ne (by simp [Ne.symm hji])]
      exact hj
  · rw [Multiset.card_cons, h.busy, List.count_set hi, hget]
    rfl

private theorem Flagged.free (h : Flagged leases (.client i ::ₘ clients)) : Flagged (leases.set i false) clients := by
  have hi := h.taken i
  rw [Multiset.count_cons_self] at hi
  have hflag : leases[i]? = some true := by
    by_contra hne
    rw [if_neg hne] at hi
    omega
  obtain ⟨hlt, hget⟩ := List.getElem?_eq_some_iff.mp hflag
  refine ⟨fun j => ?_, ?_⟩
  · have hj := h.taken j
    by_cases hji : i = j
    · subst hji
      rw [if_pos hflag] at hi
      omega
    · rw [Multiset.count_cons_of_ne (by simp [Ne.symm hji])] at hj
      rw [List.getElem?_set_ne hji]
      exact hj
  · have hbusy := h.busy
    rw [Multiset.card_cons] at hbusy
    rw [List.count_set hlt, hget, ← hbusy]
    rfl

end Flagged

structure Leased (entry : PoolEntry) (held : Multiset Resource) : Prop where
  length : entry.clientLeases.length = entry.config.maxConnections
  flagged : Flagged entry.clientLeases (held.filter (·.isClient))

private theorem filter_held (stage : Stage) (rest : Multiset Resource) :
    ((stage.held : Multiset Resource) + rest).filter (·.isClient) =
      (stage.clients : Multiset Resource) + rest.filter (·.isClient) := by
  rw [Multiset.filter_add, Multiset.filter_coe]
  simp [Stage.clients]

theorem leased_invariant : EntryInvariant fun _ => Leased where
  later _ _ _ _ _ h := h
  used _ _ _ _ h := ⟨h.length, h.flagged⟩
  built _ name config secs := ⟨List.length_replicate, fun i => Nat.zero_le _, by
    simp [PoolEntry.build, List.count_replicate]⟩
  act n entry a stage effect rest h hact := by
    have hacts := acts_of_act hact
    obtain ⟨-, hconfig, -⟩ := hacts.fixed
    obtain ⟨hlen, hflagged⟩ := h
    rw [filter_held] at hflagged
    rw [← hconfig] at hlen
    rcases hacts.leases with ⟨hl, hc⟩ | ⟨i, hfree, hl, hbefore, hafter⟩ | ⟨i, hl, hc⟩
    · refine ⟨by rw [hl]; exact hlen, ?_⟩
      rw [filter_held, hl, hc]
      exact hflagged
    · refine ⟨by rw [hl, List.length_set]; exact hlen, ?_⟩
      rw [hbefore, Multiset.coe_nil, zero_add] at hflagged
      rw [filter_held, hl, hafter]
      exact hflagged.take hfree
    · refine ⟨by rw [hl, List.length_set]; exact hlen, ?_⟩
      rw [hc, ← Multiset.cons_coe, Multiset.cons_add] at hflagged
      rw [filter_held, hl]
      exact hflagged.free

def Stage.Single (stage : Stage) : Prop := stage.held.count .permit ≤ 1 ∧ stage.clients.length ≤ 1

private theorem Acts.single {n : Nat} {entry : PoolEntry} {stage : Stage} {effect : Effect} (h : Acts n entry stage effect)
    (hs : stage.Single) : effect.stage.Single := by
  cases h with
  | left _ error => exact hs
  | dropped r held error =>
    have hsub : held.Sublist (r :: held) := List.sublist_cons_self r held
    exact ⟨(hsub.count_le _).trans hs.1, (hsub.filter _).length_le.trans hs.2⟩
  | leased | recorded => exact ⟨le_rfl, le_rfl⟩
  | _ => simp [Stage.Single, Stage.held, Stage.clients, Resource.isClient]

section Count
variable {w : World}

/-- Of one task: it counts for the permits and not for the clients, or the other
way round, or for both or neither. -/
private theorem Stage.Single.balance {stage : Stage} (h : stage.Single) :
    stage.held.count .permit + (if .permit ∉ stage.held ∧ stage.clients ≠ [] then 1 else 0) =
      stage.clients.length + if .permit ∈ stage.held ∧ stage.clients = [] then 1 else 0 := by
  obtain ⟨hp, hc⟩ := h
  have hcount : stage.held.count .permit = if .permit ∈ stage.held then 1 else 0 := by
    split
    · next hmem => exact le_antisymm hp (List.count_pos_iff.mpr hmem)
    · next hmem => exact List.count_eq_zero.mpr hmem
  have hlen : stage.clients.length = if stage.clients = [] then 0 else 1 := by
    split
    · next hnil => rw [hnil]; rfl
    · next hnil => exact le_antisymm hc (List.length_pos_iff.mpr hnil)
  rw [hcount, hlen]
  by_cases hmem : .permit ∈ stage.held <;> by_cases hnil : stage.clients = [] <;> simp [hmem, hnil]

/-- The permits out and the clients out differ by the requests that hold only one of them. -/
theorem permits_clients (h : ∀ t ∈ w.tasks, t.stage.Single) (e : Nat) :
    (heldOn w.tasks e).count .permit + w.halfReleased e =
      ((heldOn w.tasks e).filter (·.isClient)).card + w.clientless e := by
  have hpermits : (heldOn w.tasks e).count .permit =
      tally (fun t : Task => if t.entry = e then t.stage.held.count .permit else 0) w.tasks := by
    refine (map_tally (Multiset.countAddMonoidHom Resource.permit) _ w.tasks).trans (tally_congr fun t _ => ?_)
    split
    · exact Multiset.coe_count ..
    · rfl
  have hclients : ((heldOn w.tasks e).filter (·.isClient)).card =
      tally (fun t : Task => if t.entry = e then t.stage.clients.length else 0) w.tasks := by
    rw [← Multiset.countP_eq_card_filter]
    refine (map_tally (Multiset.countPAddMonoidHom fun r : Resource => r.isClient = true) _ w.tasks).trans (tally_congr fun t _ => ?_)
    split
    · refine (Multiset.coe_countP ..).trans ?_
      rw [List.countP_eq_length_filter]
      simp [Stage.clients]
    · rfl
  rw [hpermits, hclients, World.halfReleased, World.clientless, ← tally_ite, ← tally_ite, tally_add, tally_add]
  refine tally_congr fun t ht => ?_
  have := (h t ht).balance
  by_cases hte : t.entry = e
  · simpa [hte] using this
  · simp [hte]

/-- The requests that have returned only their permit are fewer than the permits
that are free or held without a client. Only a scan has to meet it. -/
def unobstructed (w : World) : Event → Bool
  | .act i .acquireClient => (w.tasks[i]?).all fun t => (w.entries[t.entry]?).all fun entry =>
      w.halfReleased t.entry < entry.available + w.clientless t.entry
  | _ => true

variable {config : FiniteMap String PoolConfig} {events : List Event}

structure Accounted (w : World) : Prop where
  current : Current w
  balanced : Throughout (fun _ => Balanced) w
  leased : Throughout (fun _ => Leased) w
  single : ∀ t ∈ w.tasks, t.stage.Single

private theorem accounted_new : Accounted .new := ⟨nofun, throughout_new, throughout_new, nofun⟩

private theorem Accounted.step (h : Accounted w) {e : Event} {w' : World} (hs : (machine config).step w e = some w') :
    Accounted w' := by
  have hentered : Stage.entered.Single := by simp [Stage.Single, Stage.held, Stage.clients]
  exact ⟨current_step h.current hs, h.balanced.step balanced_invariant h.current hs,
    h.leased.step leased_invariant h.current hs, stage_step hentered (fun _ _ _ _ _ _ _ _ hact => (acts_of_act hact).single) h.single hs⟩

private theorem Accounted.scan_finds_iff (h : Accounted w) {e : Nat} {entry : PoolEntry} (he : w.entries[e]? = some entry) :
    entry.scan.2.isSome ↔ w.halfReleased e < entry.available + w.clientless e := by
  obtain ⟨hlen, -, hbusy⟩ := h.leased.2 e entry he
  have hpermits := (h.balanced.2 e entry he).permits
  have hcount := permits_clients h.single e
  rw [scan_isSome_iff, free_iff, hlen, ← hbusy]
  omega

/-- Only a scan that finds every client taken makes a request wait for one. -/
theorem act_waits {n : Nat} {entry : PoolEntry} {a : Action} {stage : Stage} {effect : Effect} {p : BreakerPermit}
    {start : Nat} (h : act n entry a stage = some effect) (hs : effect.stage = .waitingClient p start) :
    a = .acquireClient ∧ entry.scan.2 = none := by
  revert h
  fun_cases act
  case case11 p _ start hscan =>
    intro _
    exact ⟨rfl, by rw [hscan]⟩
  all_goals rintro ⟨⟩ <;> cases hs

def NoneWaiting (w : World) : Prop := ∀ t ∈ w.tasks, ∀ p start, t.stage ≠ .waitingClient p start

private theorem noneWaiting_new : NoneWaiting .new := by
  rintro t ⟨⟩

private theorem NoneWaiting.step (h : NoneWaiting w) (ha : Accounted w) {e : Event} (hok : unobstructed w e = true)
    {w' : World} (hs : (machine config).step w e = some w') : NoneWaiting w' := by
  refine stage_step (q := fun stage => ∀ p start, stage ≠ .waitingClient p start) nofun ?_ h hs
  rintro i a t entry effect rfl he ht heff _ p start hwait
  obtain ⟨rfl, hnone⟩ := act_waits heff hwait
  simp only [unobstructed, ht, he, Option.all_some, decide_eq_true_eq] at hok
  rw [← ha.scan_finds_iff he, hnone] at hok
  cases hok

end Count

/-- A request that holds a permit and scans finds a free client exactly if the
requests halfway through their release are fewer than the permits that are free
or held without a client; in particular if there are none. In every run whose
scans meet this no request ever waits for a client. -/
theorem permit_guarantees_client (config : FiniteMap String PoolConfig) (events : List Event) (w : World)
    (hrun : (machine config).run .new events = some w) :
    (∀ t ∈ w.tasks, ∀ p, t.stage = .counted p → ∀ entry, w.entries[t.entry]? = some entry →
      (entry.scan.2.isSome ↔ w.halfReleased t.entry < entry.available + w.clientless t.entry) ∧
      (w.halfReleased t.entry = 0 → entry.scan.2.isSome)) ∧
    ((machine config).Along (fun w e => unobstructed w e = true) .new events →
      ∀ t ∈ w.tasks, ∀ p start, t.stage ≠ .waitingClient p start) := by
  constructor
  · intro t ht p hstage entry he
    have ha : Accounted w := Machine.run_invariant (fun _ _ _ h hs => h.step hs) hrun accounted_new
    have hiff := ha.scan_finds_iff he
    refine ⟨hiff, fun hzero => hiff.mpr ?_⟩
    have hself : 0 < w.clientless t.entry := by
      refine List.countP_pos_iff.mpr ⟨t, ht, ?_⟩
      simp [hstage, Stage.held, Stage.clients, Resource.isClient]
    omega
  · intro hok
    have h : Accounted w ∧ NoneWaiting w :=
      hok.invariant (I := fun w => Accounted w ∧ NoneWaiting w)
        (fun _ _ _ h hok hs => ⟨h.1.step hs, h.2.step h.1 hok hs⟩) hrun ⟨accounted_new, noneWaiting_new⟩
    exact h.2

def scanBetweenReleases : List Event :=
  [.acquire "main" none, .act 0 .tryAdmit, .act 0 .enqueue, .act 0 .grant, .act 0 .unwait, .act 0 .countInUse,
    .act 0 .acquireClient, .act 0 (.complete []), .act 0 .finish, .acquire "main" none, .act 1 .tryAdmit,
    .act 1 .enqueue, .act 0 .drop, .act 0 .drop, .act 0 .drop, .act 1 .grant, .act 1 .unwait, .act 1 .countInUse,
    .act 1 .acquireClient]

/-- The only client is still taken, so the second request waits for it, with no timeout. -/
theorem permit_without_client :
    ((machine singleConnection).run .new scanBetweenReleases).map (fun w => w.tasks.map (·.stage)) =
      some [.dropping [.client 0] none, .waitingClient ⟨0, false⟩ 0] := by
  decide +kernel

def scanAfterRebuild : List Event := evictThenRebuild ++ [.act 1 .unwait, .act 1 .countInUse, .act 1 .acquireClient]

theorem permit_guarantees_client_scanAfterRebuild :
    ∃ w, (machine singleConnection).run .new scanAfterRebuild = some w ∧
      w.tasks.map (·.stage) = [.dropping [] none, .leased ⟨0, false⟩ 0] ∧
      ∀ t ∈ w.tasks, ∀ p start, t.stage ≠ .waitingClient p start := by
  have hsome : ((machine singleConnection).run .new scanAfterRebuild).map (fun w => w.tasks.map (·.stage)) =
      some [.dropping [] none, .leased ⟨0, false⟩ 0] := by decide +kernel
  obtain ⟨w, hw, hstages⟩ := Option.map_eq_some_iff.mp hsome
  exact ⟨w, hw, hstages, (permit_guarantees_client singleConnection _ w hw).2 (by decide +kernel)⟩

end Srh.Adapters.PoolManager
