import Mathlib.Algebra.BigOperators.Group.List.Basic
import Mathlib.Algebra.Order.BigOperators.Group.List
import Mathlib.Algebra.Order.Group.Nat

/-! What the members of a list hold together, in any commutative monoid. Changing
one member leaves the share of the others alone, so a fact about the total is
proved for one member and an arbitrary rest. -/
namespace Srh.Lib
variable {α M N : Type} [AddCommMonoid M] [AddCommMonoid N]

def tally (f : α → M) (l : List α) : M := (l.map f).sum

@[simp] theorem tally_cons (f : α → M) (a : α) (l : List α) : tally f (a :: l) = f a + tally f l :=
  List.sum_cons

theorem tally_concat (f : α → M) (l : List α) (a : α) : tally f (l ++ [a]) = tally f l + f a := by
  simp [tally]

/-- The frame rule: the rest of the total does not depend on the member. -/
theorem tally_frame (f : α → M) {l : List α} {i : Nat} {a : α} (h : l[i]? = some a) :
    ∃ rest, tally f l = f a + rest ∧ ∀ b, tally f (l.set i b) = f b + rest := by
  induction l generalizing i with
  | nil => cases h
  | cons c l ih =>
    cases i with
    | zero =>
      cases h
      exact ⟨tally f l, tally_cons .., fun b => tally_cons ..⟩
    | succ i =>
      obtain ⟨rest, hl, hset⟩ := ih h
      refine ⟨f c + rest, ?_, fun b => ?_⟩
      · rw [tally_cons, hl, add_left_comm]
      · rw [List.set_cons_succ, tally_cons, hset, add_left_comm]

theorem map_tally (g : M →+ N) (f : α → M) (l : List α) : g (tally f l) = tally (fun a => g (f a)) l := by
  rw [tally, map_list_sum, List.map_map]
  rfl

theorem tally_eq_zero {f : α → M} {l : List α} (h : ∀ a ∈ l, f a = 0) : tally f l = 0 := by
  induction l with
  | nil => rfl
  | cons a l ih => rw [tally_cons, h a List.mem_cons_self, ih fun b hb => h b (List.mem_cons_of_mem _ hb), add_zero]

theorem tally_congr {f g : α → M} {l : List α} (h : ∀ a ∈ l, f a = g a) : tally f l = tally g l := by
  rw [tally, List.map_congr_left h]
  rfl

theorem tally_add (f g : α → M) (l : List α) : tally f l + tally g l = tally (fun a => f a + g a) l :=
  List.sum_map_add.symm

theorem tally_ite {p : α → Prop} [DecidablePred p] (l : List α) :
    tally (fun a => if p a then 1 else 0) l = l.countP p := by
  induction l with
  | nil => rfl
  | cons a l ih =>
    rw [tally_cons, ih, List.countP_cons, add_comm]
    simp only [decide_eq_true_eq]

/-- The greatest share is within a bound exactly when each of them is. -/
theorem greatest_le {f : α → Nat} {g : List α → Nat} (hnil : g [] = 0) (hcons : ∀ a l, g (a :: l) = max (f a) (g l)) (l : List α)
    {bound : Nat} : g l ≤ bound ↔ ∀ a ∈ l, f a ≤ bound := by
  induction l with
  | nil => simp [hnil]
  | cons a l ih => rw [hcons, max_le_iff, ih, List.forall_mem_cons]

/-- A total of one is due to exactly one member. -/
theorem tally_eq_one {f : α → Nat} {l : List α} (h : tally f l = 1) : ∃! i : Nat, ∃ a, l[i]? = some a ∧ f a ≠ 0 := by
  induction l with
  | nil => cases h
  | cons a l ih =>
    rw [tally_cons] at h
    by_cases ha : f a = 0
    · obtain ⟨i, hi, huniq⟩ := ih (by omega)
      refine ⟨i + 1, hi, ?_⟩
      rintro (_ | j) ⟨b, hb, hne⟩
      · cases hb
        exact absurd ha hne
      · rw [huniq j ⟨b, hb, hne⟩]
    · refine ⟨0, ⟨a, rfl, ha⟩, ?_⟩
      rintro (_ | j) ⟨b, hb, hne⟩
      · rfl
      · obtain ⟨rest, hl, -⟩ := tally_frame f (show l[j]? = some b from hb)
        omega

end Srh.Lib
