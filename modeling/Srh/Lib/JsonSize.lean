import Mathlib.Algebra.Ring.Int.Defs
import Mathlib.Algebra.Ring.Nat
import Mathlib.Data.String.Basic
import Srh.Lib.Json

/-! How many bytes the compact text of a JSON value takes. -/
namespace Srh.Lib

theorem utf8Len_ascii {cs : List Char} (h : ∀ c ∈ cs, c.toNat < 128) : String.utf8Len cs = cs.length := by
  induction cs with
  | nil => rfl
  | cons c cs ih =>
    rw [List.forall_mem_cons] at h
    have hc : c.utf8Size = 1 := Char.utf8Size_eq_one_iff.mpr (UInt32.le_iff_toNat_le.mpr (Nat.le_of_lt_succ h.1))
    rw [String.utf8Len_cons, ih h.2, hc, List.length_cons]

section Decimal

private theorem toDigits_ascii (n : Nat) : ∀ c ∈ Nat.toDigits 10 n, c.toNat < 128 := by
  intro c hc
  have hdigit := Nat.isDigit_of_mem_toDigits (by decide) (by decide) hc
  rw [Char.isDigit, Bool.and_eq_true, decide_eq_true_iff, decide_eq_true_iff] at hdigit
  exact Nat.lt_of_le_of_lt (UInt32.le_iff_toNat_le.mp hdigit.2) (by decide)

private theorem utf8ByteSize_repr_le {n digits : Nat} (hd : 0 < digits) (h : n < 10 ^ digits) : n.repr.utf8ByteSize ≤ digits := by
  rw [Nat.repr_eq_ofList_toDigits, String.utf8ByteSize_ofList, utf8Len_ascii (toDigits_ascii n)]
  exact (Nat.length_toDigits_le_iff (by decide) hd).mpr h

/-- A signed 64-bit integer has at most nineteen digits and a sign. -/
theorem utf8ByteSize_int_le {n : Int} (hlow : -2 ^ 63 ≤ n) (hhigh : n < 2 ^ 63) : (toString n).utf8ByteSize ≤ 20 := by
  cases n with
  | ofNat n => exact utf8ByteSize_repr_le (by decide) (by simp only [Int.ofNat_eq_natCast] at hhigh; omega)
  | negSucc n =>
    change ("-" ++ n.succ.repr).utf8ByteSize ≤ 20
    have hdigits : n.succ.repr.utf8ByteSize ≤ 19 := utf8ByteSize_repr_le (by decide) (by omega)
    have hsign : ("-" : String).utf8ByteSize = 1 := by decide
    rw [String.utf8ByteSize_append, hsign]
    omega

end Decimal

namespace Json

def size (value : Json) : Nat := String.utf8Len value.write

theorem utf8ByteSize_toText (value : Json) : value.toText.utf8ByteSize = value.size :=
  String.utf8ByteSize_ofList value.write

section Strings

/-- A character that is not written as itself is an ASCII one, and its escape has at
most six bytes. -/
theorem utf8Len_escape_le (c : Char) : String.utf8Len (escape c) ≤ 6 * c.utf8Size := by
  have hpos := c.utf8Size_pos
  rw [escape]
  split
  iterate 7 exact Nat.le_trans (by decide : _ ≤ 6 * 1) (Nat.mul_le_mul_left 6 hpos)
  split
  · have hhigh := (Ascii.isHexDigit_hexDigit (c.toNat / 16) (by omega)).ascii
    have hlow := (Ascii.isHexDigit_hexDigit (c.toNat % 16) (by omega)).ascii
    rw [utf8Len_ascii (by simp [hlow, hhigh])]
    simp only [List.length_cons, List.length_nil]
    omega
  · simp only [String.utf8Len_cons, String.utf8Len_nil]
    omega

private theorem utf8Len_escaped_le (cs : List Char) : String.utf8Len (cs.flatMap escape) ≤ 6 * String.utf8Len cs := by
  induction cs with
  | nil => exact Nat.le_refl 0
  | cons c cs ih =>
    have hc := utf8Len_escape_le c
    rw [List.flatMap_cons, String.utf8Len_append, String.utf8Len_cons]
    omega

theorem size_string_le (value : String) : size (.string value) ≤ 6 * value.utf8ByteSize + 2 := by
  have h := utf8Len_escaped_le value.toList
  have hq : ('"' : Char).utf8Size = 1 := by decide
  rw [← String.utf8ByteSize_ofList value.toList, String.ofList_toList] at h
  rw [size, write_string, quote, List.cons_append, String.utf8Len_cons, String.utf8Len_append, String.utf8Len_cons,
    String.utf8Len_nil, hq]
  omega

end Strings

/-- The closing bracket and the commas cost no more than one byte for each item and
one more. -/
theorem utf8Len_writeItems_le (items : List Json) :
    String.utf8Len (writeItems items) ≤ (items.map fun item => item.size + 1).sum + 1 := by
  have hclose : (']' : Char).utf8Size = 1 := by decide
  have hcomma : (',' : Char).utf8Size = 1 := by decide
  induction items with
  | nil => exact Nat.le_refl 1
  | cons item items ih =>
    rw [List.map_cons, List.sum_cons, size]
    cases items with
    | nil =>
      rw [writeItems_singleton, String.utf8Len_append, String.utf8Len_cons, String.utf8Len_nil, hclose]
      omega
    | cons next items =>
      rw [writeItems_cons_cons, String.utf8Len_append, String.utf8Len_cons, hcomma]
      omega

theorem size_array_le (items : List Json) : size (.array items) ≤ (items.map fun item => item.size + 1).sum + 2 := by
  have h := utf8Len_writeItems_le items
  have hopen : ('[' : Char).utf8Size = 1 := by decide
  rw [size, write_array, String.utf8Len_cons, hopen]
  omega

end Json
end Srh.Lib
