import Mathlib.Algebra.Ring.Nat
import Srh.Lib.Guards

/-! Budgets: computations that either pass a test and spend a fixed amount, or fail
in one way. They compose by adding what they spend, so the order does not matter. -/
namespace Srh.Lib
variable {ε α : Type} (e : ε)

def spend (budget amount : Nat) : Except ε Nat := if amount ≤ budget then .ok (budget - amount) else .error e

private theorem spend_zero (budget : Nat) : spend e budget 0 = .ok budget := if_pos (Nat.zero_le budget)

private theorem spend_eq_ok {budget amount rest : Nat} : spend e budget amount = .ok rest ↔ rest + amount = budget := by
  rw [spend]
  split
  · rw [Except.ok.injEq]
    omega
  · refine ⟨nofun, ?_⟩
    intro h
    omega

private theorem spend_spend (budget m n : Nat) : (spend e budget m >>= fun rest => spend e rest n) = spend e budget (m + n) := by
  by_cases hm : m ≤ budget
  · rw [spend, if_pos hm]
    change spend e (budget - m) n = _
    rw [spend, spend, Nat.sub_sub]
    by_cases hn : m + n ≤ budget
    · rw [if_pos hn, if_pos (by omega)]
    · rw [if_neg hn, if_neg (by omega)]
  · rw [spend, if_neg hm, spend, if_neg (by omega)]
    rfl

/-- On every budget below a bound, the computation spends the amount when it passes
its test and fails when it does not. -/
structure Spends (bound : Nat) (f : Nat → Except ε Nat) (test : Prop) (amount : Nat) : Prop where
  pass : ∀ budget < bound, test → f budget = spend e budget amount
  fail : ∀ budget < bound, ¬ test → f budget = .error e

variable {e} {bound m n budget : Nat} {f g : Nat → Except ε Nat} {p q : Prop}

theorem spends_ok : Spends e bound .ok True 0 :=
  ⟨fun budget _ _ => (spend_zero e budget).symm, fun _ _ h => absurd trivial h⟩

theorem Spends.andThen (hf : Spends e bound f p m) (hg : Spends e bound g q n) :
    Spends e bound (fun budget => f budget >>= g) (p ∧ q) (m + n) := by
  constructor
  · intro budget hb h
    rw [hf.pass budget hb h.1, ← spend_spend]
    cases hs : spend e budget m with
    | error d => rfl
    | ok rest =>
      have := spend_eq_ok e |>.mp hs
      exact hg.pass rest (by omega) h.2
  · intro budget hb h
    by_cases hp : p
    · rw [hf.pass budget hb hp]
      cases hs : spend e budget m with
      | error d =>
        rw [spend] at hs
        split at hs
        · cases hs
        · exact hs.symm
      | ok rest =>
        have := spend_eq_ok e |>.mp hs
        exact hg.fail rest (by omega) fun hq => h ⟨hp, hq⟩
    · rw [hf.fail budget hb hp]
      rfl

theorem Spends.congr (h : Spends e bound f p m) (hpq : p ↔ q) (hmn : m = n) : Spends e bound f q n := by
  subst hmn
  exact ⟨fun budget hb hq => h.pass budget hb (hpq.mpr hq), fun budget hb hq => h.fail budget hb fun hp => hq (hpq.mp hp)⟩

/-- A loop over one shared budget passes when every element does, and spends the
sum. -/
theorem Spends.foldlM {step : Nat → α → Except ε Nat} {test : α → Prop} {cost : α → Nat} {l : List α}
    (h : ∀ a ∈ l, Spends e bound (step · a) (test a) (cost a)) :
    Spends e bound (fun budget => l.foldlM step budget) (∀ a ∈ l, test a) (l.map cost).sum := by
  induction l with
  | nil => exact spends_ok.congr (by simp) rfl
  | cons a l ih =>
    rw [List.forall_mem_cons] at h
    simp only [List.foldlM_cons, List.forall_mem_cons, List.map_cons, List.sum_cons]
    exact h.1.andThen (ih h.2)

theorem Spends.eq_ok (h : Spends e bound f p m) (hb : budget < bound) {rest : Nat} :
    f budget = .ok rest ↔ p ∧ rest + m = budget := by
  by_cases hp : p
  · rw [h.pass budget hb hp, spend_eq_ok]
    exact (and_iff_right hp).symm
  · rw [h.fail budget hb hp]
    exact ⟨nofun, fun hr => absurd hr.1 hp⟩

/-- Two computations with the same test that spend the same agree. -/
theorem Spends.unique (hf : Spends e bound f p m) (hg : Spends e bound g q n) (hpq : p ↔ q) (hmn : m = n)
    (hb : budget < bound) : f budget = g budget := by
  have hf := hf.congr hpq hmn
  by_cases hq : q
  · rw [hf.pass budget hb hq, hg.pass budget hb hq]
  · rw [hf.fail budget hb hq, hg.fail budget hb hq]

end Srh.Lib
