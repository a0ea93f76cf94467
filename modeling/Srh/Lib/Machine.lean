import Mathlib.Data.List.Basic

/-! Deterministic machines driven by a list of labels. Every interleaving of a
concurrent system is one label list, so a claim about all interleavings is a
claim about all runs. -/
namespace Srh.Lib

/-- A partial step function; a label that is not enabled in a state has no step. -/
structure Machine (σ ε : Type) where
  step : σ → ε → Option σ

namespace Machine
variable {σ ε : Type} (m : Machine σ ε)

def run : σ → List ε → Option σ
  | s, [] => some s
  | s, e :: es => (m.step s e).bind fun t => run t es

/-- Every step of the run meets the given condition in the state before it. -/
def Along (ok : σ → ε → Prop) : σ → List ε → Prop
  | _, [] => True
  | s, e :: es => ok s e ∧ ∀ t, m.step s e = some t → Along ok t es

instance decidableForallSome {o : Option σ} {p : σ → Prop} [DecidablePred p] :
    Decidable (∀ t, o = some t → p t) :=
  match o with
  | none => isTrue (by simp)
  | some t => decidable_of_iff (p t) (by simp)

instance decidableAlong {ok : σ → ε → Prop} [∀ s e, Decidable (ok s e)] (s : σ) (es : List ε) :
    Decidable (m.Along ok s es) :=
  match es with
  | [] => isTrue trivial
  | e :: es =>
    have : DecidablePred fun t => m.Along ok t es := fun t => decidableAlong t es
    inferInstanceAs (Decidable (ok s e ∧ ∀ t, m.step s e = some t → m.Along ok t es))

variable {m}

theorem run_cons {s u : σ} {e : ε} {es : List ε} (h : m.run s (e :: es) = some u) :
    ∃ t, m.step s e = some t ∧ m.run t es = some u :=
  Option.bind_eq_some_iff.mp h

theorem run_append (s : σ) (xs ys : List ε) :
    m.run s (xs ++ ys) = (m.run s xs).bind fun t => m.run t ys := by
  induction xs generalizing s with
  | nil => rfl
  | cons e xs ih =>
    simp only [List.cons_append, run, Option.bind_assoc]
    congr 1
    funext t
    exact ih t

/-- What every step meeting a condition preserves, every run meeting it preserves. -/
theorem Along.invariant {I : σ → Prop} {ok : σ → ε → Prop}
    (hstep : ∀ s e t, I s → ok s e → m.step s e = some t → I t)
    {s t : σ} {es : List ε} (ha : m.Along ok s es) (hr : m.run s es = some t) (hi : I s) : I t := by
  induction es generalizing s with
  | nil => cases hr; exact hi
  | cons e es ih =>
    obtain ⟨u, hu, hr⟩ := run_cons hr
    exact ih (ha.2 u hu) hr (hstep s e u hi ha.1 hu)

theorem Along.and {p q : σ → ε → Prop} {s : σ} {es : List ε} (hp : m.Along p s es) (hq : m.Along q s es) :
    m.Along (fun s e => p s e ∧ q s e) s es := by
  induction es generalizing s with
  | nil => trivial
  | cons e es ih => exact ⟨⟨hp.1, hq.1⟩, fun t ht => ih (hp.2 t ht) (hq.2 t ht)⟩

private theorem along_true (s : σ) (es : List ε) : m.Along (fun _ _ => True) s es := by
  induction es generalizing s with
  | nil => trivial
  | cons e es ih => exact ⟨trivial, fun t _ => ih t⟩

theorem along_of_mem {ok : ε → Prop} (s : σ) {es : List ε} (h : ∀ e ∈ es, ok e) : m.Along (fun _ e => ok e) s es := by
  induction es generalizing s with
  | nil => trivial
  | cons e es ih => exact ⟨h e List.mem_cons_self, fun t _ => ih t fun d hd => h d (List.mem_cons_of_mem _ hd)⟩

/-- The unconditional invariant rule. -/
theorem run_invariant {I : σ → Prop} (hstep : ∀ s e t, I s → m.step s e = some t → I t)
    {s t : σ} {es : List ε} (hr : m.run s es = some t) (hi : I s) : I t :=
  (along_true s es).invariant (fun s e t hi _ => hstep s e t hi) hr hi

def Reaches (m : Machine σ ε) (s t : σ) : Prop := ∃ es, m.run s es = some t

theorem Reaches.refl (s : σ) : m.Reaches s s := ⟨[], rfl⟩

theorem reaches_step {s t : σ} {e : ε} (h : m.step s e = some t) : m.Reaches s t := ⟨[e], by rw [run, h]; rfl⟩

theorem Reaches.trans {s t u : σ} (h : m.Reaches s t) (h' : m.Reaches t u) : m.Reaches s u := by
  obtain ⟨xs, hx⟩ := h
  obtain ⟨ys, hy⟩ := h'
  exact ⟨xs ++ ys, by rw [run_append, hx]; exact hy⟩

/-- While something is left to do, some step of the given kind does part of it, so some
run of such steps does it all. -/
theorem exists_run_done {I busy : σ → Prop} {p : ε → Prop} (rank : σ → Nat)
    (hstep : ∀ s e t, I s → m.step s e = some t → I t)
    (hbusy : ∀ s, I s → busy s → ∃ e t, p e ∧ m.step s e = some t ∧ rank t < rank s) {s : σ} (hi : I s) :
    ∃ es t, m.run s es = some t ∧ (∀ e ∈ es, p e) ∧ ¬ busy t := by
  induction hr : rank s using Nat.strongRecOn generalizing s with
  | _ n ih =>
    by_cases hb : busy s
    · obtain ⟨e, t, he, ht, hlt⟩ := hbusy s hi hb
      obtain ⟨es, u, hu, hall, hdone⟩ := ih (rank t) (hr ▸ hlt) (hstep s e t hi ht) rfl
      refine ⟨e :: es, u, ?_, List.forall_mem_cons.mpr ⟨he, hall⟩, hdone⟩
      rw [run, ht]
      exact hu
    · exact ⟨[], s, rfl, List.forall_mem_nil _, hb⟩

/-- The two-run rule: if a view of the states is carried along by steps whose labels look
alike, runs over labels that look alike show the same. -/
theorem run_view {α β : Type} (view : σ → α) (look : ε → β)
    (hstep : ∀ s s' e e', view s = view s' → look e = look e' → (m.step s e).map view = (m.step s' e').map view)
    {s s' : σ} {es es' : List ε} (hs : view s = view s') (he : es.map look = es'.map look) :
    (m.run s es).map view = (m.run s' es').map view := by
  induction es generalizing s s' es' with
  | nil =>
    obtain rfl := List.map_eq_nil_iff.mp he.symm
    exact congrArg some hs
  | cons e es ih =>
    cases es' with
    | nil => cases he
    | cons e' es' =>
      rw [List.map_cons, List.map_cons, List.cons.injEq] at he
      have h := hstep s s' e e' hs he.1
      rw [run, run]
      cases ht : m.step s e with
      | none =>
        rw [ht] at h
        rw [Option.map_eq_none_iff.mp h.symm]
        rfl
      | some t =>
        rw [ht] at h
        obtain ⟨t', ht', hview⟩ := Option.map_eq_some_iff.mp h.symm
        rw [ht']
        exact ih hview.symm he.2

end Machine

/-- What holds of every step of a longer list holds of the steps of the shorter
one and of the last step. -/
theorem forall_steps_concat {ε : Type} {p : List ε → ε → Prop} {es : List ε} {e : ε} :
    (∀ before d, before ++ [d] <+: es ++ [e] → p before d) ↔ (∀ before d, before ++ [d] <+: es → p before d) ∧ p es e := by
  constructor
  · intro h
    exact ⟨fun before d hd => h before d (hd.trans (List.prefix_append _ _)), h es e (List.prefix_refl _)⟩
  · rintro ⟨h, hlast⟩ before d hd
    rcases List.prefix_concat_iff.mp hd with heq | hd
    · obtain ⟨rfl, hde⟩ := List.append_inj' heq rfl
      cases hde
      exact hlast
    · exact h before d hd

end Srh.Lib
