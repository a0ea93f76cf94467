import Mathlib.Algebra.Group.Nat.Defs
import Srh.Lib.FiniteMap
import Srh.Lib.Json

/-! Typed values read from JSON the way derived deserializers read them. A record is
an object, or an array of its fields in the order of their declaration. -/
namespace Srh.Lib.Serde

abbrev Reader (α : Type) := Json → Option α

section Scalars

def text : Reader String
  | .string value => some value
  | _ => none

def bool : Reader Bool
  | .bool value => some value
  | _ => none

/-- Numbers with a fraction, an exponent or a sign are not unsigned. -/
def unsigned (bits : Nat) : Reader Nat
  | .number digits =>
    let value := digits.toList.foldl (fun value c => value * 10 + (c.toNat - '0'.toNat)) 0
    if digits.toList ≠ [] ∧ digits.toList.all Char.isDigit ∧ value < 2 ^ bits then some value else none
  | _ => none

end Scalars

section Containers
variable {α : Type} (reader : Reader α)

def optional : Reader (Option α)
  | .null => some none
  | value => (reader value).map some

def list : Reader (List α)
  | .array items => items.mapM reader
  | _ => none

def mapStep (entries : FiniteMap String α) (member : String × Json) : Option (FiniteMap String α) :=
  (reader member.2).map (entries.insert member.1)

def map : Reader (FiniteMap String α)
  | .object members => members.foldlM (mapStep reader) .empty
  | _ => none

end Containers

section Records

/-- The fields of a record that are given. A strict record has no other members, and
no record has one field twice. -/
def fields (names : List String) (strict : Bool) : Reader (List (String × Json))
  | .object members =>
    let known := members.filter fun member => names.contains member.1
    if strict && !members.all fun member => names.contains member.1 then none
    else if (known.map Prod.fst).Nodup then some known
    else none
  | .array items => if items.length ≤ names.length then some (names.zip items) else none
  | _ => none

variable {α : Type}

def required (given : List (String × Json)) (name : String) (reader : Reader α) : Option α :=
  (given.lookup name).bind reader

def field (given : List (String × Json)) (name : String) (reader : Reader α) (default : α) : Option α :=
  match given.lookup name with
  | some value => reader value
  | none => some default

end Records

section Facts
variable {α : Type} {reader : Reader α}

theorem text_eq_some {value : Json} {s : String} (h : text value = some s) : value = .string s := by
  cases value with
  | string t => rw [Option.some.inj h]
  | _ => cases h

theorem fields_shape {names : List String} {strict : Bool} {value : Json} {given : List (String × Json)}
    (h : fields names strict value = some given) :
    (∃ members, value = .object members) ∨ ∃ items, value = .array items := by
  cases value with
  | object members => exact .inl ⟨members, rfl⟩
  | array items => exact .inr ⟨items, rfl⟩
  | _ => cases h

/-- What is known of a record that is written as an object. -/
theorem fields_object {names : List String} {strict : Bool} {members given : List (String × Json)}
    (h : fields names strict (.object members) = some given) :
    (strict = true → ∀ member ∈ members, member.1 ∈ names) ∧ (given.map Prod.fst).Nodup ∧
      ∀ member, member ∈ given ↔ member ∈ members ∧ member.1 ∈ names := by
  rw [fields] at h
  split at h
  · cases h
  · next hstrict =>
    split at h
    · next hnodup =>
      obtain rfl := Option.some.inj h
      refine ⟨?_, hnodup, ?_⟩
      · intro hs member hm
        rw [hs, Bool.true_and, Bool.not_eq_true, Bool.not_eq_false', List.all_eq_true] at hstrict
        exact List.contains_iff_mem.mp (hstrict member hm)
      · intro member
        rw [List.mem_filter, List.contains_iff_mem]
    · cases h

theorem fields_array {names : List String} {strict : Bool} {items : List Json} {given : List (String × Json)}
    (h : fields names strict (.array items) = some given) : given = names.zip items := by
  rw [fields] at h
  split at h
  · exact (Option.some.inj h).symm
  · cases h

private theorem lookup_of_mem {given : List (String × Json)} (hn : (given.map Prod.fst).Nodup) {name : String} {value : Json}
    (h : (name, value) ∈ given) : given.lookup name = some value := by
  induction given with
  | nil => cases h
  | cons first rest ih =>
    obtain ⟨hnot, hrest⟩ := List.nodup_cons.mp hn
    rw [List.lookup_cons]
    rcases List.mem_cons.mp h with rfl | hmem
    · rw [beq_self_eq_true]
    · have hne : (name == first.1) = false := by
        rw [beq_eq_false_iff_ne]
        rintro rfl
        exact hnot (List.mem_map.mpr ⟨_, hmem, rfl⟩)
      rw [hne]
      exact ih hrest hmem

/-- A field that is given is read. -/
theorem field_given {given : List (String × Json)} (hn : (given.map Prod.fst).Nodup) {name : String} {value : Json}
    {default a : α} (h : field given name reader default = some a) (hm : (name, value) ∈ given) :
    reader value = some a := by
  rw [field, lookup_of_mem hn hm] at h
  exact h

theorem required_given {given : List (String × Json)} {name : String} {a : α} (h : required given name reader = some a) :
    ∃ value, (name, value) ∈ given ∧ reader value = some a := by
  obtain ⟨value, hlookup, hread⟩ := Option.bind_eq_some_iff.mp h
  obtain ⟨before, after, hgiven, -⟩ := List.lookup_eq_some_iff.mp hlookup
  rw [hgiven]
  exact ⟨value, List.mem_append_right before List.mem_cons_self, hread⟩

theorem map_shape {value : Json} {entries : FiniteMap String α} (h : map reader value = some entries) :
    ∃ members, value = .object members := by
  cases value with
  | object members => exact ⟨members, rfl⟩
  | _ => cases h

private theorem foldlM_mapStep_read {members : List (String × Json)} {entries result : FiniteMap String α}
    (h : members.foldlM (mapStep reader) entries = some result) : ∀ member ∈ members, ∃ a, reader member.2 = some a := by
  induction members generalizing entries with
  | nil => exact fun _ hm => absurd hm List.not_mem_nil
  | cons first members ih =>
    rw [List.foldlM_cons] at h
    obtain ⟨next, hnext, hrest⟩ := Option.bind_eq_some_iff.mp h
    obtain ⟨a, ha, -⟩ := Option.map_eq_some_iff.mp hnext
    intro member hm
    rcases List.mem_cons.mp hm with rfl | hmem
    · exact ⟨a, ha⟩
    · exact ih hrest member hmem

/-- Every member of a map is read. -/
theorem map_read {members : List (String × Json)} {entries : FiniteMap String α}
    (h : map reader (.object members) = some entries) : ∀ member ∈ members, ∃ a, reader member.2 = some a :=
  foldlM_mapStep_read h

end Facts
end Srh.Lib.Serde
