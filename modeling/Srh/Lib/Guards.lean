import Mathlib.Algebra.Group.Nat.Defs
import Mathlib.Data.List.Basic

/-! Sequences of checks in the error monad: when such a sequence succeeds. -/
namespace Srh.Lib
variable {ε α β : Type}

def checked (n : Nat) : Option Nat := if n < 2 ^ 64 then some n else none

theorem bind_eq_ok {x : Except ε α} {f : α → Except ε β} {b : β} :
    (x >>= f) = .ok b ↔ ∃ a, x = .ok a ∧ f a = .ok b := by
  cases x with
  | error e => exact ⟨nofun, fun ⟨_, h, _⟩ => nomatch h⟩
  | ok a => exact ⟨fun h => ⟨a, rfl, h⟩, fun ⟨_, h, k⟩ => by cases h; exact k⟩

theorem check_then {x : Except ε Unit} {y : Except ε β} {b : β} :
    (x >>= fun _ => y) = .ok b ↔ x = .ok () ∧ y = .ok b := by
  rw [bind_eq_ok]
  exact ⟨fun ⟨_, h, k⟩ => ⟨h, k⟩, fun ⟨h, k⟩ => ⟨(), h, k⟩⟩

theorem mapError_eq_ok {δ : Type} {x : Except ε α} {f : ε → δ} {a : α} : x.mapError f = .ok a ↔ x = .ok a := by
  cases x with
  | error e =>
    constructor
    · intro h
      cases h
    · intro h
      cases h
  | ok b => rw [Except.mapError, Except.ok.injEq, Except.ok.injEq]

theorem forM_eq_ok {f : α → Except ε Unit} {l : List α} : l.forM f = .ok () ↔ ∀ a ∈ l, f a = .ok () := by
  induction l with
  | nil => exact ⟨nofun, fun _ => rfl⟩
  | cons a l ih =>
    rw [List.forM_eq_forM, List.forM_cons, check_then, List.forall_mem_cons, ← ih, List.forM_eq_forM]

theorem reject_eq_ok {p : Prop} [Decidable p] {e : ε} {a : α} {x : Except ε α} :
    (if p then .error e else x) = .ok a ↔ ¬ p ∧ x = .ok a := by
  by_cases h : p
  · rw [if_pos h]
    exact ⟨nofun, fun hn => absurd h hn.1⟩
  · rw [if_neg h]
    exact ⟨fun hx => ⟨h, hx⟩, And.right⟩

def refuse (p : Prop) [Decidable p] (e : ε) : Except ε Unit := if p then .error e else .ok ()

@[simp] theorem refuse_eq_ok {p : Prop} [Decidable p] {e : ε} : refuse p e = .ok () ↔ ¬ p := by
  rw [refuse, reject_eq_ok]
  exact and_iff_left rfl

def Fails (P : ε → Prop) (x : Except ε α) : Prop := ∀ e, x = .error e → P e

theorem fails_refuse {P : ε → Prop} {p : Prop} [Decidable p] {e : ε} (h : P e) : Fails P (refuse p e) := by
  intro d hd
  rw [refuse] at hd
  split at hd
  · cases hd
    exact h
  · cases hd

theorem fails_ok {P : ε → Prop} (a : α) : Fails P (.ok a) := by
  intro e he
  cases he

theorem fails_mapError {δ : Type} {P : δ → Prop} {f : ε → δ} (h : ∀ e, P (f e)) (x : Except ε α) : Fails P (x.mapError f) := by
  intro e he
  cases x with
  | ok a => cases he
  | error d =>
    cases he
    exact h d

theorem Fails.map {P : ε → Prop} {x : Except ε α} (hx : Fails P x) (f : α → β) : Fails P (x.map f) := by
  intro e he
  cases x with
  | ok a => cases he
  | error d =>
    cases he
    exact hx _ rfl

theorem Fails.bind {P : ε → Prop} {x : Except ε α} {f : α → Except ε β} (hx : Fails P x) (hf : ∀ a, Fails P (f a)) :
    Fails P (x >>= f) := by
  cases x with
  | ok a => exact hf a
  | error e =>
    rintro d ⟨⟩
    exact hx e rfl

theorem Fails.and_then {P : ε → Prop} {x : Except ε Unit} {y : Except ε β} (hx : Fails P x) (hy : Fails P y) :
    Fails P (x >>= fun _ => y) := hx.bind fun _ => hy

theorem Fails.foldlM {P : ε → Prop} {f : β → α → Except ε β} {l : List α} (h : ∀ b, ∀ a ∈ l, Fails P (f b a)) (b : β) :
    Fails P (l.foldlM f b) := by
  induction l generalizing b with
  | nil => exact fun e he => by cases he
  | cons a l ih =>
    rw [List.foldlM_cons]
    exact Fails.bind (h b a List.mem_cons_self) (ih fun b a ha => h b a (List.mem_cons_of_mem _ ha))

/-- A sequence over a state that succeeds succeeds in both parts. -/
theorem run_bind_eq_ok {σ : Type} {x : EStateM ε σ α} {f : α → EStateM ε σ β} {s t : σ} {b : β}
    (h : (x >>= f) s = .ok b t) : ∃ a u, x s = .ok a u ∧ f a u = .ok b t := by
  simp only [bind, EStateM.bind] at h
  split at h
  · exact ⟨_, _, ‹_›, h⟩
  · cases h

end Srh.Lib
