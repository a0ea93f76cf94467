import Mathlib.Algebra.Ring.Nat
import Mathlib.Data.List.Basic

/-! Metered computations: with enough left on the meter the outcome is a fixed one,
otherwise the computation stops at the unit that is missing. -/
namespace Srh.Lib
variable {ε σ α β : Type} (level : Nat → σ) (e : ε) (empty : σ)

/-- From every level the computation uses the amount and ends as given at what is
left, or fails with the meter empty. -/
def Metered (f : EStateM ε σ α) (amount : Nat) (outcome : Nat → EStateM.Result ε σ α) : Prop :=
  ∀ r, f (level r) = if amount ≤ r then outcome (r - amount) else .error e empty

def endState : EStateM.Result ε σ α → σ
  | .ok _ s => s
  | .error _ s => s

section Reads
variable (left : σ → Nat)

/-- The computation reads a value, for a given amount, or fails in some other way
and then has used no more than it charged. -/
def Reads (f : EStateM ε σ α) (amount : Nat) : Option α → Prop
  | some a => Metered level e empty f amount fun r => .ok a (level r)
  | none => ∃ (used : Nat) (final : Nat → σ), (∀ r, left (final r) = r) ∧
      Metered level e empty f used fun r => .error e (final r)

end Reads

variable {level e empty} {left : σ → Nat} {f : EStateM ε σ α} {g : α → EStateM ε σ β} {a : α} {m n r : Nat}

private theorem metered_pure (a : α) : Metered level e empty (pure a) 0 fun r => .ok a (level r) := by
  intro r
  rw [if_pos (Nat.zero_le r)]
  rfl

theorem Metered.bind {outcome : Nat → EStateM.Result ε σ β} (hf : Metered level e empty f m fun r => .ok a (level r))
    (hg : Metered level e empty (g a) n outcome) : Metered level e empty (f >>= g) (m + n) outcome := by
  intro r
  have hbind : (f >>= g) (level r) = match f (level r) with
      | .ok a s => g a s
      | .error d s => .error d s := rfl
  rw [hbind, hf r]
  by_cases hm : m ≤ r
  · rw [if_pos hm]
    simp only [hg (r - m), Nat.sub_sub]
    by_cases hn : m + n ≤ r
    · rw [if_pos hn, if_pos (by omega)]
    · rw [if_neg hn, if_neg (by omega)]
  · rw [if_neg hm, if_neg (by omega)]

theorem Metered.bind_error {final : Nat → σ} (hf : Metered level e empty f m fun r => .error e (final r)) :
    Metered level e empty (f >>= g) m fun r => .error e (final r) := by
  intro r
  have hbind : (f >>= g) (level r) = match f (level r) with
      | .ok a s => g a s
      | .error d s => .error d s := rfl
  rw [hbind, hf r]
  by_cases hm : m ≤ r
  · rw [if_pos hm, if_pos hm]
  · rw [if_neg hm, if_neg hm]

theorem reads_pure (a : α) : Reads level e empty left (pure a) 0 (some a) := metered_pure a

theorem Reads.bind {o : Option α} {k : α → Option β} (hf : Reads level e empty left f m o)
    (hg : ∀ a, o = some a → Reads level e empty left (g a) n (k a)) : Reads level e empty left (f >>= g) (m + n) (o.bind k) := by
  cases o with
  | none =>
    obtain ⟨used, final, hfinal, hf⟩ := hf
    exact ⟨used, final, hfinal, hf.bind_error⟩
  | some a =>
    have hf : Metered level e empty f m fun r => .ok a (level r) := hf
    have hg := hg a rfl
    rw [Option.bind_some]
    cases hk : k a with
    | some b =>
      rw [hk] at hg
      have hg : Metered level e empty (g a) n fun r => .ok b (level r) := hg
      exact hf.bind hg
    | none =>
      rw [hk] at hg
      obtain ⟨used, final, hfinal, hg⟩ := hg
      exact ⟨m + used, final, hfinal, hf.bind hg⟩

/-- A value is read exactly when there is one and the meter suffices. -/
theorem Reads.eq_ok {o : Option α} (h : Reads level e empty left f m o) {s : σ} :
    f (level r) = .ok a s ↔ o = some a ∧ m ≤ r ∧ s = level (r - m) := by
  cases o with
  | none =>
    obtain ⟨used, final, -, h⟩ := h
    rw [h r]
    split <;> simp
  | some b =>
    rw [h r]
    split
    · rename_i hm
      simp [hm, eq_comm]
    · rename_i hm
      simp [hm]

/-- Whatever the level, the same amount is used as far as it is there. -/
theorem Reads.used {o : Option α} (h : Reads level e empty left f m o) (hlevel : ∀ r, left (level r) = r) (hempty : left empty = 0) :
    ∃ used, ∀ r, left (endState (f (level r))) = r - used := by
  cases o with
  | none =>
    obtain ⟨used, final, hfinal, h⟩ := h
    refine ⟨used, fun r => ?_⟩
    rw [h r]
    split
    · exact hfinal _
    · rw [endState, hempty]
      omega
  | some b =>
    refine ⟨m, fun r => ?_⟩
    rw [h r]
    split
    · exact hlevel _
    · rw [endState, hempty]
      omega

end Srh.Lib
