import Mathlib.Data.List.AList
import Mathlib.Data.List.MinMax
import Mathlib.Order.Lattice

/-! Finite maps with an iteration order. An association list with distinct keys
stands for a hash map in whichever order it happens to iterate, and, with
popFirst, for a map ordered by its keys. -/
namespace Srh.Lib

def FiniteMap (κ ν : Type) := AList (fun _ : κ => ν)

namespace FiniteMap
variable {κ ν : Type}

def empty : FiniteMap κ ν := (∅ : AList _)

def keys (m : FiniteMap κ ν) : List κ := AList.keys m

def len (m : FiniteMap κ ν) : Nat := m.keys.length

def values (m : FiniteMap κ ν) : List ν := m.entries.map Sigma.snd

def toList (m : FiniteMap κ ν) : List (κ × ν) := m.entries.map fun e => (e.1, e.2)

def mapVal {μ : Type} (f : ν → μ) (m : FiniteMap κ ν) : FiniteMap κ μ where
  entries := m.entries.map (Sigma.map id fun _ => f)
  nodupKeys := by
    rw [List.NodupKeys, List.keys, List.map_map]
    exact m.nodupKeys

theorem keys_nodup (m : FiniteMap κ ν) : m.keys.Nodup := AList.keys_nodup m

section Lookup
variable [DecidableEq κ]

def get (m : FiniteMap κ ν) (k : κ) : Option ν := AList.lookup k m

def insert (m : FiniteMap κ ν) (k : κ) (v : ν) : FiniteMap κ ν := AList.insert k v m

def remove (m : FiniteMap κ ν) (k : κ) : FiniteMap κ ν := AList.erase k m

theorem get_insert (m : FiniteMap κ ν) (k j : κ) (v : ν) :
    (m.insert k v).get j = if j = k then some v else m.get j := by
  split
  · next h => subst h; exact AList.lookup_insert m
  · next h => exact AList.lookup_insert_ne h

@[simp] theorem get_insert_self (m : FiniteMap κ ν) (k : κ) (v : ν) : (m.insert k v).get k = some v := by
  simp [get_insert]

theorem get_remove (m : FiniteMap κ ν) (k j : κ) :
    (m.remove k).get j = if j = k then none else m.get j := by
  split
  · next h => subst h; exact AList.lookup_erase j m
  · next h => exact AList.lookup_erase_ne h

@[simp] theorem get_remove_self (m : FiniteMap κ ν) (k : κ) : (m.remove k).get k = none := by
  simp [get_remove]

theorem get_insert_some {m : FiniteMap κ ν} {k j : κ} {v w : ν} :
    (m.insert k v).get j = some w ↔ (j = k ∧ w = v) ∨ (j ≠ k ∧ m.get j = some w) := by
  rw [get_insert]
  split <;> simp_all [eq_comm]

theorem get_remove_some {m : FiniteMap κ ν} {k j : κ} {w : ν} :
    (m.remove k).get j = some w ↔ j ≠ k ∧ m.get j = some w := by
  rw [get_remove]
  split <;> simp_all

theorem get_remove_none {m : FiniteMap κ ν} {k j : κ} : (m.remove k).get j = none ↔ j = k ∨ m.get j = none := by
  rw [get_remove]
  split <;> simp_all

theorem get_mapVal {μ : Type} (f : ν → μ) (m : FiniteMap κ ν) (k : κ) : (m.mapVal f).get k = (m.get k).map f :=
  List.dlookup_map₂ k

private theorem mem_entries {m : FiniteMap κ ν} {k : κ} {v : ν} :
    (⟨k, v⟩ : Σ _ : κ, ν) ∈ m.entries ↔ m.get k = some v :=
  (AList.mem_lookup_iff (s := m)).symm

theorem mem_toList {m : FiniteMap κ ν} {k : κ} {v : ν} : (k, v) ∈ m.toList ↔ m.get k = some v := by
  rw [← mem_entries]
  constructor
  · intro h
    obtain ⟨⟨j, w⟩, he, heq⟩ := List.mem_map.mp h
    cases heq
    exact he
  · exact fun h => List.mem_map.mpr ⟨⟨k, v⟩, h, rfl⟩

theorem mem_keys {m : FiniteMap κ ν} {k : κ} : k ∈ m.keys ↔ ∃ v, m.get k = some v := by
  rw [← Option.isSome_iff_exists]
  exact (AList.lookup_isSome (s := m)).symm

theorem get_eq_none {m : FiniteMap κ ν} {k : κ} : m.get k = none ↔ k ∉ m.keys :=
  AList.lookup_eq_none (s := m)

theorem mem_values {m : FiniteMap κ ν} {v : ν} : v ∈ m.values ↔ ∃ k, m.get k = some v := by
  constructor
  · intro h
    obtain ⟨e, he, rfl⟩ := List.mem_map.mp h
    exact ⟨e.1, mem_entries.mp he⟩
  · rintro ⟨k, hk⟩
    exact List.mem_map.mpr ⟨⟨k, v⟩, mem_entries.mpr hk, rfl⟩

/-- A value list has no repetition when no two keys share a value. -/
theorem values_nodup {m : FiniteMap κ ν}
    (h : ∀ j k v, m.get j = some v → m.get k = some v → j = k) : m.values.Nodup := by
  apply List.Nodup.map_on
  · rintro ⟨j, v⟩ hj ⟨k, w⟩ hk hvw
    have hw : v = w := hvw
    subst hw
    rw [h j k v (mem_entries.mp hj) (mem_entries.mp hk)]
  · exact (m.nodupKeys).nodup

private theorem keys_insert (m : FiniteMap κ ν) (k : κ) (v : ν) : (m.insert k v).keys = k :: m.keys.erase k :=
  AList.keys_insert m

private theorem keys_remove (m : FiniteMap κ ν) (k : κ) : (m.remove k).keys = m.keys.erase k :=
  AList.keys_erase k m

theorem len_insert_of_get {m : FiniteMap κ ν} {k : κ} {v : ν} (w : ν) (h : m.get k = some v) :
    (m.insert k w).len = m.len := by
  have hk := mem_keys.mpr ⟨v, h⟩
  have hp := List.length_pos_of_mem hk
  rw [len, len, keys_insert, List.length_cons, List.length_erase_of_mem hk]
  omega

theorem len_insert_of_get_none {m : FiniteMap κ ν} {k : κ} (w : ν) (h : m.get k = none) :
    (m.insert k w).len = m.len + 1 := by
  rw [len, len, keys_insert, List.length_cons, List.erase_of_not_mem (get_eq_none.mp h)]

theorem len_remove_of_get {m : FiniteMap κ ν} {k : κ} {v : ν} (h : m.get k = some v) :
    (m.remove k).len + 1 = m.len := by
  have hk := mem_keys.mpr ⟨v, h⟩
  have hp := List.length_pos_of_mem hk
  rw [len, len, keys_remove, List.length_erase_of_mem hk]
  omega

theorem len_remove_le (m : FiniteMap κ ν) (k : κ) : (m.remove k).len ≤ m.len := by
  rw [len, len, keys_remove]
  exact List.length_erase_le

end Lookup

section Ordered
variable [LinearOrder κ]

/-- Remove and return the entry with the least key. -/
def popFirst (m : FiniteMap κ ν) : Option (κ × ν) × FiniteMap κ ν :=
  match m.keys.min? with
  | none => (none, m)
  | some k => ((m.get k).map (fun v => (k, v)), m.remove k)

theorem popFirst_none {m m' : FiniteMap κ ν} (h : m.popFirst = (none, m')) :
    m' = m ∧ ∀ k, m.get k = none := by
  rw [popFirst] at h
  split at h
  · next hk =>
    have hnil : m.keys = [] := List.min?_eq_none_iff.mp hk
    refine ⟨(Prod.mk.inj h).2.symm, fun k => get_eq_none.mpr ?_⟩
    rw [hnil]
    exact List.not_mem_nil
  · next k hk =>
    obtain ⟨v, hv⟩ := mem_keys.mp (List.min?_eq_some_iff.mp hk).1
    simp [hv] at h

theorem popFirst_some {m m' : FiniteMap κ ν} {k : κ} {v : ν} (h : m.popFirst = (some (k, v), m')) :
    m.get k = some v ∧ m' = m.remove k ∧ ∀ j w, m.get j = some w → k ≤ j := by
  rw [popFirst] at h
  split at h
  · simp at h
  · next j hj =>
    obtain ⟨hmem, hmin⟩ := List.min?_eq_some_iff.mp hj
    obtain ⟨w, hw⟩ := mem_keys.mp hmem
    simp only [hw, Option.map_some, Prod.mk.injEq, Option.some.injEq] at h
    obtain ⟨⟨rfl, rfl⟩, rfl⟩ := h
    exact ⟨hw, rfl, fun i u hi => hmin i (mem_keys.mpr ⟨u, hi⟩)⟩

end Ordered
end FiniteMap
end Srh.Lib
