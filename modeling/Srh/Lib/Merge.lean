import Mathlib.Data.List.Basic

/-! Taking some elements of a list out and putting a value back in the place of
each: ranks among the elements taken out, and the positional merge. -/
namespace Srh.Lib
variable {α β γ : Type}

def rank (p : α → Bool) (xs : List α) (i : Nat) : Nat := (xs.take i).countP p

@[simp] theorem rank_cons_succ (p : α → Bool) (x : α) (xs : List α) (i : Nat) :
    rank p (x :: xs) (i + 1) = rank p xs i + if p x then 1 else 0 := by
  rw [rank, List.take_succ_cons, List.countP_cons, rank]

theorem rank_map (p : β → Bool) (f : α → β) (xs : List α) (i : Nat) : rank p (xs.map f) i = rank (p ∘ f) xs i := by
  rw [rank, ← List.map_take, List.countP_map, rank]

theorem rank_congr {p q : α → Bool} {xs : List α} (h : ∀ x ∈ xs, p x = q x) (i : Nat) : rank p xs i = rank q xs i := by
  apply List.countP_congr
  intro x hx
  rw [h x (List.mem_of_mem_take hx)]

/-- An element taken out stands at its rank. -/
theorem filter_rank {p : α → Bool} {xs : List α} {i : Nat} {x : α} (h : xs[i]? = some x) (hp : p x) :
    (xs.filter p)[rank p xs i]? = some x := by
  induction xs generalizing i with
  | nil => cases h
  | cons y xs ih =>
    cases i with
    | zero =>
      obtain rfl : y = x := Option.some.inj h
      rw [List.filter_cons_of_pos hp]
      rfl
    | succ i =>
      have ih := ih (by simpa using h)
      rw [rank_cons_succ]
      by_cases hy : p y
      · rw [List.filter_cons_of_pos hy, if_pos hy, List.getElem?_cons_succ]
        exact ih
      · rw [List.filter_cons_of_neg hy, if_neg hy]
        exact ih

/-- The third list is the first with its holes filled from the second in order, each
value related to what it was filled from. -/
inductive Merges (R : β → γ → Prop) : List (Option γ) → List β → List γ → Prop where
  | nil : Merges R [] [] []
  | keep {c : γ} {slots : List (Option γ)} {values : List β} {merged : List γ} (h : Merges R slots values merged) :
      Merges R (some c :: slots) values (c :: merged)
  | fill {b : β} {c : γ} {slots : List (Option γ)} {values : List β} {merged : List γ} (hr : R b c)
      (h : Merges R slots values merged) : Merges R (none :: slots) (b :: values) (c :: merged)

namespace Merges
variable {R : β → γ → Prop} {slots : List (Option γ)} {values : List β} {merged : List γ}

theorem length (h : Merges R slots values merged) : merged.length = slots.length := by
  induction h with
  | nil => rfl
  | keep _ ih => rw [List.length_cons, List.length_cons, ih]
  | fill _ _ ih => rw [List.length_cons, List.length_cons, ih]

/-- There is one value for each hole. -/
theorem length_values (h : Merges R slots values merged) : values.length = slots.countP Option.isNone := by
  induction h with
  | nil => rfl
  | keep _ ih => rw [List.countP_cons_of_neg (by simp), ih]
  | fill _ _ ih => rw [List.countP_cons_of_pos (by simp), List.length_cons, ih]

theorem at_keep (h : Merges R slots values merged) {i : Nat} {c : γ} (hi : slots[i]? = some (some c)) :
    merged[i]? = some c := by
  induction h generalizing i with
  | nil => cases hi
  | keep _ ih =>
    cases i with
    | zero => simpa using hi
    | succ i => exact ih (by simpa using hi)
  | fill _ _ ih =>
    cases i with
    | zero => cases hi
    | succ i => exact ih (by simpa using hi)

/-- A hole gets the value of its rank among the holes. -/
theorem at_fill (h : Merges R slots values merged) {i : Nat} (hi : slots[i]? = some none) :
    ∃ b c, values[rank Option.isNone slots i]? = some b ∧ merged[i]? = some c ∧ R b c := by
  induction h generalizing i with
  | nil => cases hi
  | keep _ ih =>
    cases i with
    | zero => cases hi
    | succ i =>
      obtain ⟨b, c, hb, hc, hr⟩ := ih (by simpa using hi)
      exact ⟨b, c, by simpa using hb, hc, hr⟩
  | @fill b c _ _ _ hr _ ih =>
    cases i with
    | zero => exact ⟨b, c, rfl, rfl, hr⟩
    | succ i =>
      obtain ⟨b, c, hb, hc, hr⟩ := ih (by simpa using hi)
      exact ⟨b, c, by simpa using hb, hc, hr⟩

end Merges
end Srh.Lib
