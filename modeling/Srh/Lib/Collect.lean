import Srh.Lib.FiniteMap
import Srh.Lib.Guards

/-! Collecting entries into a map when the key of an entry is computed and may fail.
The later of two entries with one key wins, so the outcome can depend on the order. -/
namespace Srh.Lib
variable {ε α κ ν μ : Type} [DecidableEq κ]

section Collect
variable (key : α → Except ε κ) (value : α → ν)

def collectInto (m : FiniteMap κ ν) (a : α) : Except ε (FiniteMap κ ν) := do
  let k ← key a
  .ok (m.insert k (value a))

def collect (l : List α) : Except ε (FiniteMap κ ν) := l.foldlM (collectInto key value) FiniteMap.empty

end Collect

def SameEntries (view : ν → μ) : Except ε (FiniteMap κ ν) → Except ε (FiniteMap κ ν) → Prop
  | .error d, .error e => d = e
  | .ok m, .ok n => ∀ k, (m.get k).map view = (n.get k).map view
  | _, _ => False

def OrderFree (key : α → Except ε κ) (value : α → ν) (view : ν → μ) (l : List α) : Prop :=
  ∀ o o', o.Perm l → o'.Perm l → SameEntries view (collect key value o) (collect key value o')

/-- Keys that cannot be read fail alike, and where all can be read entries with one
key look alike. -/
structure Unambiguous (key : α → Except ε κ) (value : α → ν) (view : ν → μ) (l : List α) : Prop where
  errors : ∀ a ∈ l, ∀ b ∈ l, ∀ d e, key a = .error d → key b = .error e → d = e
  entries : (∀ a ∈ l, ∃ k, key a = .ok k) →
    ∀ a ∈ l, ∀ b ∈ l, ∀ k, key a = .ok k → key b = .ok k → view (value a) = view (value b)

variable {key : α → Except ε κ} {value : α → ν} {view : ν → μ} {l : List α} {m n : FiniteMap κ ν}

private theorem collectInto_ok {a : α} {k : κ} (h : key a = .ok k) : collectInto key value m a = .ok (m.insert k (value a)) := by
  rw [collectInto, h]
  rfl

private theorem collectInto_error {a : α} {e : ε} (h : key a = .error e) : collectInto key value m a = .error e := by
  rw [collectInto, h]
  rfl

/-- Readable keys are all collected. -/
theorem foldlM_collectInto_ok (value : α → ν) (h : ∀ a ∈ l, ∃ k, key a = .ok k) : ∃ n, l.foldlM (collectInto key value) m = .ok n := by
  induction l generalizing m with
  | nil => exact ⟨m, rfl⟩
  | cons a l ih =>
    rw [List.forall_mem_cons] at h
    obtain ⟨k, hk⟩ := h.1
    obtain ⟨n, hn⟩ := ih h.2 (m := m.insert k (value a))
    refine ⟨n, ?_⟩
    rw [List.foldlM_cons, collectInto_ok hk]
    exact hn

/-- An entry of the result is an entry of the list, unless it was there before. -/
theorem get_of_foldlM (h : l.foldlM (collectInto key value) m = .ok n) {k : κ} {v : ν} (hv : n.get k = some v) :
    (∃ a ∈ l, key a = .ok k ∧ value a = v) ∨ m.get k = some v := by
  induction l generalizing m with
  | nil =>
    cases h
    exact .inr hv
  | cons a l ih =>
    obtain ⟨middle, hm, h⟩ := bind_eq_ok.mp h
    obtain ⟨j, hj, hm⟩ := bind_eq_ok.mp hm
    cases hm
    rcases ih h with ⟨b, hb, hk, hval⟩ | hold
    · exact .inl ⟨b, List.mem_cons_of_mem a hb, hk, hval⟩
    · rcases FiniteMap.get_insert_some.mp hold with ⟨rfl, rfl⟩ | ⟨-, hold⟩
      · exact .inl ⟨a, List.mem_cons_self, hj, rfl⟩
      · exact .inr hold

/-- A key that was read, or was there before, is in the result. -/
theorem foldlM_keys (h : l.foldlM (collectInto key value) m = .ok n) {k : κ}
    (hk : (∃ a ∈ l, key a = .ok k) ∨ m.get k ≠ none) : n.get k ≠ none := by
  induction l generalizing m with
  | nil =>
    cases h
    rcases hk with ⟨a, ha, -⟩ | hk
    · exact absurd ha List.not_mem_nil
    · exact hk
  | cons a l ih =>
    obtain ⟨middle, hm, h⟩ := bind_eq_ok.mp h
    obtain ⟨j, hj, hm⟩ := bind_eq_ok.mp hm
    cases hm
    apply ih h
    rw [FiniteMap.get_insert]
    rcases hk with ⟨b, hb, hk⟩ | hk
    · rcases List.mem_cons.mp hb with rfl | hb
      · cases hj.symm.trans hk
        simp
      · exact .inl ⟨b, hb, hk⟩
    · right
      split
      · simp
      · exact hk

/-- Where unreadable keys fail alike, one of them decides the outcome. -/
theorem foldlM_collectInto_error {e : ε} (hall : ∀ a ∈ l, ∀ d, key a = .error d → d = e) (hex : ∃ a ∈ l, ∃ d, key a = .error d) :
    l.foldlM (collectInto key value) m = .error e := by
  induction l generalizing m with
  | nil =>
    obtain ⟨a, ha, -⟩ := hex
    exact absurd ha List.not_mem_nil
  | cons a l ih =>
    rw [List.forall_mem_cons] at hall
    rw [List.foldlM_cons]
    cases hk : key a with
    | error d =>
      rw [collectInto_error hk, hall.1 d hk]
      rfl
    | ok k =>
      rw [collectInto_ok hk]
      obtain ⟨b, hb, d, hd⟩ := hex
      rcases List.mem_cons.mp hb with rfl | hb
      · cases hk.symm.trans hd
      · exact ih hall.2 ⟨b, hb, d, hd⟩

theorem collect_ok (value : α → ν) (h : ∀ a ∈ l, ∃ k, key a = .ok k) : ∃ n, collect key value l = .ok n :=
  foldlM_collectInto_ok value h

private theorem get_collect {k : κ} {v : ν} (h : collect key value l = .ok n) (hv : n.get k = some v) :
    ∃ a ∈ l, key a = .ok k ∧ value a = v := by
  rcases get_of_foldlM h hv with ha | hempty
  · exact ha
  · cases hempty

private theorem get_collect_eq_none {k : κ} (h : collect key value l = .ok n) : n.get k = none ↔ ∀ a ∈ l, key a ≠ .ok k := by
  constructor
  · intro hnone a ha hk
    exact foldlM_keys h (.inl ⟨a, ha, hk⟩) hnone
  · intro hk
    by_contra hsome
    obtain ⟨v, hv⟩ := Option.ne_none_iff_exists'.mp hsome
    obtain ⟨a, ha, hak, -⟩ := get_collect h hv
    exact hk a ha hak

private theorem collect_cons_error {a : α} {e : ε} (h : key a = .error e) : collect key value (a :: l) = .error e := by
  rw [collect, List.foldlM_cons, collectInto_error h]
  rfl

theorem get_collect_last {a : α} {k : κ} (h : collect key value (l ++ [a]) = .ok n) (hk : key a = .ok k) :
    n.get k = some (value a) := by
  rw [collect, List.foldlM_append] at h
  obtain ⟨m, -, h⟩ := bind_eq_ok.mp h
  rw [List.foldlM_cons, collectInto_ok hk] at h
  cases h
  exact FiniteMap.get_insert_self ..

private theorem Unambiguous.orderFree (h : Unambiguous key value view l) : OrderFree key value view l := by
  intro o o' hp hp'
  by_cases hex : ∃ a ∈ l, ∃ d, key a = .error d
  · obtain ⟨a, ha, e, he⟩ := hex
    have hcollect : ∀ {o : List α}, o.Perm l → collect key value o = .error e := fun hp =>
      foldlM_collectInto_error (fun b hb d hd => h.errors b (hp.mem_iff.mp hb) a ha d e hd he)
        ⟨a, hp.mem_iff.mpr ha, e, he⟩
    rw [hcollect hp, hcollect hp']
    rfl
  · have hok : ∀ a ∈ l, ∃ k, key a = .ok k := by
      intro a ha
      cases hk : key a with
      | error d => exact absurd ⟨a, ha, d, hk⟩ hex
      | ok k => exact ⟨k, rfl⟩
    obtain ⟨m, hm⟩ := collect_ok value fun a ha => hok a (hp.mem_iff.mp ha)
    obtain ⟨n, hn⟩ := collect_ok value fun a ha => hok a (hp'.mem_iff.mp ha)
    rw [hm, hn]
    intro k
    -- the same keys are present, and any two entries behind a key look alike
    have hnone : m.get k = none ↔ n.get k = none := by
      simp only [get_collect_eq_none hm, get_collect_eq_none hn, hp.mem_iff, hp'.mem_iff]
    cases hv : m.get k with
    | none => rw [hnone.mp hv]
    | some v =>
      obtain ⟨w, hw⟩ := Option.ne_none_iff_exists'.mp fun hn => Option.some_ne_none v (hv.symm.trans (hnone.mpr hn))
      obtain ⟨a, ha, hak, rfl⟩ := get_collect hm hv
      obtain ⟨b, hb, hbk, rfl⟩ := get_collect hn hw
      rw [hw, Option.map_some, Option.map_some,
        h.entries hok a (hp.mem_iff.mp ha) b (hp'.mem_iff.mp hb) k hak hbk]

private theorem exists_perm_cons {a : α} (h : a ∈ l) : ∃ rest, (a :: rest).Perm l := by
  obtain ⟨s, t, rfl⟩ := List.append_of_mem h
  exact ⟨s ++ t, List.perm_middle.symm⟩

/-- An entry put first decides the error, one put last decides its key. -/
theorem OrderFree.unambiguous (h : OrderFree key value view l) : Unambiguous key value view l where
  errors := by
    intro a ha b hb d e hd he
    obtain ⟨r, hr⟩ := exists_perm_cons ha
    obtain ⟨r', hr'⟩ := exists_perm_cons hb
    have hsame := h _ _ hr hr'
    rw [collect_cons_error hd, collect_cons_error he] at hsame
    exact hsame
  entries := by
    intro hok a ha b hb k hak hbk
    have hlast : ∀ {a : α}, a ∈ l → ∃ o, (o ++ [a]).Perm l := fun ha => by
      obtain ⟨r, hr⟩ := exists_perm_cons ha
      exact ⟨r, (List.perm_append_singleton _ r).trans hr⟩
    obtain ⟨o, ho⟩ := hlast ha
    obtain ⟨o', ho'⟩ := hlast hb
    obtain ⟨m, hm⟩ := collect_ok value fun c hc => hok c (ho.mem_iff.mp hc)
    obtain ⟨n, hn⟩ := collect_ok value fun c hc => hok c (ho'.mem_iff.mp hc)
    have hsame := h _ _ ho ho'
    rw [hm, hn] at hsame
    have hk := hsame k
    rw [get_collect_last hm hak, get_collect_last hn hbk] at hk
    exact Option.some.inj hk

theorem orderFree_iff : OrderFree key value view l ↔ Unambiguous key value view l :=
  ⟨OrderFree.unambiguous, Unambiguous.orderFree⟩

end Srh.Lib
