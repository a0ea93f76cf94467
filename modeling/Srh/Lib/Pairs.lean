import Srh.Lib.Guards

/-! Lists that are read two items at a time, as hexadecimal text is. Where a pair and
its value determine each other, so do the lists. -/
namespace Srh.Lib.Pairs
variable {α β γ ε : Type}

/-- Stops at the first pair that cannot be read. An item without a partner is left. -/
def read (f : α → α → Except ε β) : List α → Except ε (List β)
  | first :: second :: rest => do
    let value ← f first second
    let values ← read f rest
    .ok (value :: values)
  | _ => .ok []

def write (g : β → γ × γ) (values : List β) : List γ := values.flatMap fun value => [(g value).1, (g value).2]

section Facts
variable {f : α → α → Except ε β} {g : β → γ × γ} {items : List α} {values : List β}

private theorem write_cons (value : β) (values : List β) : write g (value :: values) = (g value).1 :: (g value).2 :: write g values :=
  rfl

theorem length_write (values : List β) : (write g values).length = 2 * values.length := by
  induction values with
  | nil => rfl
  | cons value values ih =>
    rw [write_cons, List.length_cons, List.length_cons, ih, List.length_cons]
    omega

/-- A list of even length ends where its last pair does. -/
theorem eq_nil_of_even (heven : items.length % 2 = 0) (h : ∀ first second rest, items = first :: second :: rest → False) :
    items = [] := by
  rcases items with _ | ⟨first, _ | ⟨second, rest⟩⟩
  · rfl
  · cases heven
  · exact (h first second rest rfl).elim

/-- What is written is read back. -/
theorem read_write (embed : γ → α) (h : ∀ value, f (embed (g value).1) (embed (g value).2) = .ok value) (values : List β) :
    read f ((write g values).map embed) = .ok values := by
  induction values with
  | nil => rfl
  | cons value values ih =>
    rw [write_cons, List.map_cons, List.map_cons, read, h, ih]
    rfl

/-- What is read is written back in its normal form. -/
theorem write_of_read {normal : α → γ} (h : ∀ first second value, f first second = .ok value → g value = (normal first, normal second))
    (heven : items.length % 2 = 0) (hread : read f items = .ok values) : write g values = items.map normal := by
  fun_induction read f items generalizing values with
  | case1 first second rest ih =>
    obtain ⟨value, hvalue, hread⟩ := bind_eq_ok.mp hread
    obtain ⟨more, hmore, heq⟩ := bind_eq_ok.mp hread
    cases heq
    have hrest : rest.length % 2 = 0 := by
      rw [List.length_cons, List.length_cons] at heven
      omega
    rw [write_cons, h first second value hvalue, ih hrest hmore, List.map_cons, List.map_cons]
  | case2 items hnone =>
    cases hread
    rw [eq_nil_of_even heven hnone]
    rfl

/-- A list of even length is read exactly when every item can be. -/
theorem read_ok_iff {P : α → Prop} (h : ∀ first second, (∃ value, f first second = .ok value) ↔ P first ∧ P second)
    (heven : items.length % 2 = 0) : (∃ values, read f items = .ok values) ↔ ∀ item ∈ items, P item := by
  fun_induction read f items with
  | case1 first second rest ih =>
    have hrest : rest.length % 2 = 0 := by
      rw [List.length_cons, List.length_cons] at heven
      omega
    rw [List.forall_mem_cons, List.forall_mem_cons, ← ih hrest, ← and_assoc, ← h]
    constructor
    · rintro ⟨values, hread⟩
      obtain ⟨value, hvalue, hread⟩ := bind_eq_ok.mp hread
      obtain ⟨more, hmore, -⟩ := bind_eq_ok.mp hread
      exact ⟨⟨value, hvalue⟩, more, hmore⟩
    · rintro ⟨⟨value, hvalue⟩, more, hmore⟩
      exact ⟨value :: more, bind_eq_ok.mpr ⟨value, hvalue, bind_eq_ok.mpr ⟨more, hmore, rfl⟩⟩⟩
  | case2 items hnone =>
    rw [eq_nil_of_even heven hnone]
    exact iff_of_true ⟨[], rfl⟩ fun _ hmem => absurd hmem List.not_mem_nil

end Facts
end Srh.Lib.Pairs
