import Mathlib.Data.List.Basic

/-! Programs that put questions to the outside and go on with the answers. -/
namespace Srh.Lib

inductive Dialogue (Q : Type) (A : Q → Type) (ρ : Type) where
  | done (result : ρ)
  | ask (question : Q) (next : A question → Dialogue Q A ρ)

namespace Dialogue
variable {Q : Type} {A : Q → Type} {ρ σ τ : Type}

def bind : Dialogue Q A ρ → (ρ → Dialogue Q A σ) → Dialogue Q A σ
  | done result, f => f result
  | ask question next, f => ask question fun answer => (next answer).bind f

def run (outside : (question : Q) → τ → A question × τ) : Dialogue Q A ρ → τ → ρ × τ
  | done result, t => (result, t)
  | ask question next, t => (next (outside question t).1).run outside (outside question t).2

/-- Whatever the outside answers, within what it may answer, the result meets the
condition. -/
def Ends (may : (question : Q) → A question → Prop) (P : ρ → Prop) : Dialogue Q A ρ → Prop
  | done result => P result
  | ask question next => ∀ answer, may question answer → (next answer).Ends may P

/-- The same, where every question on the way meets a condition too. -/
def Obeys (may : (question : Q) → A question → Prop) (asks : Q → Prop) (P : ρ → Prop) : Dialogue Q A ρ → Prop
  | done result => P result
  | ask question next => asks question ∧ ∀ answer, may question answer → (next answer).Obeys may asks P

variable {may : (question : Q) → A question → Prop} {P : ρ → Prop} {d : Dialogue Q A ρ}

theorem ends_any (d : Dialogue Q A ρ) : d.Ends may fun _ => True := by
  induction d with
  | done result => trivial
  | ask question next ih => exact fun answer _ => ih answer

theorem Ends.bind {f : ρ → Dialogue Q A σ} {R : σ → Prop} (h : d.Ends may P) (hf : ∀ result, P result → (f result).Ends may R) :
    (d.bind f).Ends may R := by
  induction d with
  | done result => exact hf result h
  | ask question next ih => exact fun answer ha => ih answer (h answer ha)

theorem Obeys.bind {asks : Q → Prop} {f : ρ → Dialogue Q A σ} {R : σ → Prop} (h : d.Obeys may asks P)
    (hf : ∀ result, P result → (f result).Obeys may asks R) : (d.bind f).Obeys may asks R := by
  induction d with
  | done result => exact hf result h
  | ask question next ih => exact ⟨h.1, fun answer ha => ih answer (h.2 answer ha)⟩

/-- Two continuations that agree on every possible result make the same program. -/
theorem bind_congr {f g : ρ → Dialogue Q A σ} (h : d.Ends (fun _ _ => True) P) (hfg : ∀ result, P result → f result = g result) :
    d.bind f = d.bind g := by
  induction d with
  | done result => exact hfg result h
  | ask question next ih =>
    rw [Dialogue.bind, Dialogue.bind]
    congr 1
    funext answer
    exact ih answer (h answer trivial)

end Dialogue
end Srh.Lib
