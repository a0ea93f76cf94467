import Srh.Lib.FiniteMap
import Srh.Lib.Guards

/-! Filling a map where the first entry of a key settles its value and every later
one has to agree with it. Neither success nor the map depends on the order. -/
namespace Srh.Lib
variable {ε α κ ν : Type} [DecidableEq κ]

section Settle
variable (key : α → κ) (value : α → ν) (agrees : ν → ν → Bool) (conflict : α → ε)

def settle (m : FiniteMap κ ν) (a : α) : Except ε (FiniteMap κ ν) :=
  match m.get (key a) with
  | some existing => if agrees existing (value a) then .ok m else .error (conflict a)
  | none => .ok (m.insert (key a) (value a))

def Agreeing (l : List α) : Prop := ∀ a ∈ l, ∀ b ∈ l, key a = key b → value a = value b

/-- The map holds exactly what the entries say. -/
def Filled (l : List α) (m : FiniteMap κ ν) : Prop := ∀ k v, m.get k = some v ↔ ∃ a ∈ l, key a = k ∧ value a = v

end Settle

variable {key : α → κ} {value : α → ν} {agrees : ν → ν → Bool} {conflict : α → ε} {l done : List α} {m n : FiniteMap κ ν}

private theorem Filled.agreeing (h : Filled key value l m) : Agreeing key value l := by
  intro a ha b hb hk
  have hgeta := (h (key a) (value a)).mpr ⟨a, ha, rfl, rfl⟩
  have hgetb := (h (key a) (value b)).mpr ⟨b, hb, hk.symm, rfl⟩
  exact Option.some.inj (hgeta.symm.trans hgetb)

/-- Maps filled from the same entries in any order have the same values. -/
theorem Filled.get_eq {l' : List α} (h : Filled key value l m) (h' : Filled key value l' n) (hp : l.Perm l') (k : κ) :
    m.get k = n.get k := by
  apply Option.ext
  intro v
  rw [h k v, h' k v]
  simp only [hp.mem_iff]

/-- An entry that contradicts none before it is added. -/
theorem Filled.insert (h : Filled key value done m) {a : α} (hall : ∀ b ∈ done, key b = key a → value b = value a) :
    Filled key value (done ++ [a]) (m.insert (key a) (value a)) := by
  intro k v
  rw [FiniteMap.get_insert_some, h k v]
  constructor
  · rintro (⟨rfl, rfl⟩ | ⟨-, b, hb, hk, hv⟩)
    · exact ⟨a, List.mem_append_right _ (List.mem_singleton_self a), rfl, rfl⟩
    · exact ⟨b, List.mem_append_left _ hb, hk, hv⟩
  · rintro ⟨b, hb, rfl, rfl⟩
    rcases List.mem_append.mp hb with hb | hb
    · by_cases hk : key b = key a
      · exact .inl ⟨hk, hall b hb hk⟩
      · exact .inr ⟨hk, b, hb, rfl, rfl⟩
    · obtain rfl := List.mem_singleton.mp hb
      exact .inl ⟨rfl, rfl⟩

/-- One entry is added, is there already, or contradicts an earlier one. -/
theorem settle_step (conflict : α → ε) (hagrees : ∀ a b, agrees (value a) (value b) = true ↔ value a = value b)
    (h : Filled key value done m) (a : α) :
    (∃ n, settle key value agrees conflict m a = .ok n ∧ Filled key value (done ++ [a]) n) ∨
      (∃ e, settle key value agrees conflict m a = .error e) ∧ ¬ Agreeing key value (done ++ [a]) := by
  rw [settle]
  cases hget : m.get (key a) with
  | none =>
    refine .inl ⟨_, rfl, h.insert ?_⟩
    intro b hb hk
    have hsome := (h (key b) (value b)).mpr ⟨b, hb, rfl, rfl⟩
    rw [hk, hget] at hsome
    cases hsome
  | some existing =>
    obtain ⟨b, hb, hk, rfl⟩ := (h (key a) existing).mp hget
    by_cases hv : value b = value a
    · left
      refine ⟨m, if_pos ((hagrees b a).mpr hv), ?_⟩
      intro k v
      rw [h k v]
      constructor
      · rintro ⟨c, hc, hck, hcv⟩
        exact ⟨c, List.mem_append_left _ hc, hck, hcv⟩
      · rintro ⟨c, hc, hck, hcv⟩
        rcases List.mem_append.mp hc with hc | hc
        · exact ⟨c, hc, hck, hcv⟩
        · obtain rfl := List.mem_singleton.mp hc
          exact ⟨b, hb, hk.trans hck, hv.trans hcv⟩
    · right
      refine ⟨⟨_, if_neg fun ht => hv ((hagrees b a).mp ht)⟩, ?_⟩
      intro hall
      exact hv (hall b (List.mem_append_left _ hb) a (List.mem_append_right _ (List.mem_singleton_self a)) hk)

private theorem foldlM_settle (conflict : α → ε) (l : List α)
    (hagrees : ∀ a b, agrees (value a) (value b) = true ↔ value a = value b) (h : Filled key value done m) :
    (∃ n, l.foldlM (settle key value agrees conflict) m = .ok n ∧ Filled key value (done ++ l) n) ∨
      (∃ e, l.foldlM (settle key value agrees conflict) m = .error e) ∧ ¬ Agreeing key value (done ++ l) := by
  induction l generalizing done m with
  | nil => exact .inl ⟨m, rfl, (List.append_nil done).symm ▸ h⟩
  | cons a l ih =>
    rw [List.foldlM_cons, List.append_cons]
    rcases settle_step conflict hagrees h a with ⟨n, hn, hfilled⟩ | ⟨⟨e, he⟩, hconflict⟩
    · rw [hn]
      exact ih hfilled
    · rw [he]
      refine .inr ⟨⟨e, rfl⟩, ?_⟩
      intro hall
      exact hconflict fun b hb c hc => hall b (List.mem_append_left _ hb) c (List.mem_append_left _ hc)

theorem filled_empty (key : α → κ) (value : α → ν) : Filled key value [] (FiniteMap.empty : FiniteMap κ ν) := by
  intro k v
  constructor
  · intro h
    cases h
  · rintro ⟨a, ha, -⟩
    exact absurd ha List.not_mem_nil

/-- Where entries agree, replacing a value changes nothing. -/
theorem filled_foldl_insert (h : Filled key value done m) (hall : Agreeing key value (done ++ l)) :
    Filled key value (done ++ l) (l.foldl (fun m a => m.insert (key a) (value a)) m) := by
  induction l generalizing done m with
  | nil => exact (List.append_nil done).symm ▸ h
  | cons a l ih =>
    rw [List.append_cons] at hall ⊢
    have ha : a ∈ done ++ [a] ++ l := List.mem_append_left _ (List.mem_append_right _ (List.mem_singleton_self a))
    refine ih (h.insert ?_) hall
    intro b hb hk
    exact hall b (List.mem_append_left _ (List.mem_append_left _ hb)) a ha hk

section Runs
variable (hagrees : ∀ a b, agrees (value a) (value b) = true ↔ value a = value b)
include hagrees

theorem settle_ok_iff : (∃ n, l.foldlM (settle key value agrees conflict) FiniteMap.empty = .ok n) ↔ Agreeing key value l := by
  rcases foldlM_settle conflict l hagrees (filled_empty key value) with ⟨n, hn, hfilled⟩ | ⟨⟨e, he⟩, hconflict⟩
  · exact ⟨fun _ => hfilled.agreeing, fun _ => ⟨n, hn⟩⟩
  · constructor
    · rintro ⟨n, hn⟩
      cases he.symm.trans hn
    · intro hall
      exact absurd hall hconflict

theorem filled_of_settle (h : l.foldlM (settle key value agrees conflict) FiniteMap.empty = .ok n) : Filled key value l n := by
  rcases foldlM_settle conflict l hagrees (filled_empty key value) with ⟨n', hn, hfilled⟩ | ⟨⟨e, he⟩, -⟩
  · cases hn.symm.trans h
    exact hfilled
  · cases he.symm.trans h

end Runs
end Srh.Lib
