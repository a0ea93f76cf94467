import Mathlib.Data.List.Basic

/-! ASCII case mapping of strings and bytes; everything else is left alone. -/
namespace Srh.Lib.Ascii

def toUppercase (s : String) : String := String.ofList (s.toList.map Char.toUpper)

def lowerByte (b : UInt8) : UInt8 := if 65 ≤ b ∧ b ≤ 90 then b + 32 else b

def toLowercase (bytes : List UInt8) : List UInt8 := bytes.map lowerByte

def eqIgnoreCase (a b : List UInt8) : Bool := toLowercase a = toLowercase b

def lowercaseText (s : String) : String := String.ofList (s.toList.map Char.toLower)

def hexDigit (n : Nat) : Char := if n < 10 then Char.ofNat (48 + n) else Char.ofNat (87 + n)

def IsHexDigit (c : Char) : Prop := ('0' ≤ c ∧ c ≤ '9') ∨ ('a' ≤ c ∧ c ≤ 'f') ∨ ('A' ≤ c ∧ c ≤ 'F')

instance (c : Char) : Decidable (IsHexDigit c) := inferInstanceAs (Decidable (_ ∨ _))

def bytes (s : String) : List UInt8 := s.toList.map fun c => UInt8.ofNat c.toNat

theorem toUpper_ascii {c : Char} (h : c.toUpper.toNat < 128) : c.toNat < 128 := by
  by_cases hc : 'a'.val ≤ c.val ∧ c.val ≤ 'z'.val
  · exact Nat.lt_of_le_of_lt (UInt32.le_iff_toNat_le.mp hc.2) (by decide)
  · have hu : c.toUpper = c := dif_neg hc
    rwa [hu] at h

theorem lowerByte_toUpper : ∀ n < 128,
    lowerByte (UInt8.ofNat (Char.ofNat n).toUpper.toNat) = lowerByte (UInt8.ofNat n) := by
  decide

private theorem lowerByte_lowerByte (b : UInt8) : lowerByte (lowerByte b) = lowerByte b := by
  rw [lowerByte, lowerByte]
  split
  · rename_i h
    rw [if_neg]
    simp only [UInt8.le_iff_toNat_le, UInt8.toNat_add, UInt8.reduceToNat] at h ⊢
    omega
  · rfl

theorem toLowercase_toLowercase (bytes : List UInt8) : toLowercase (toLowercase bytes) = toLowercase bytes := by
  rw [toLowercase, toLowercase, List.map_map]
  exact List.map_congr_left fun b _ => lowerByte_lowerByte b

/-- The characters of the bytes of an ASCII text are its own. -/
theorem chars_bytes {text : String} (h : ∀ c ∈ text.toList, c.toNat < 128) :
    ((bytes text).map fun b => Char.ofNat b.toNat) = text.toList := by
  rw [bytes, List.map_map]
  conv_rhs => rw [← List.map_id text.toList]
  apply List.map_congr_left
  intro c hc
  have hlt := h c hc
  rw [Function.comp_apply, UInt8.toNat_ofNat', Nat.mod_eq_of_lt (by omega), Char.ofNat_toNat, id]

section Hexadecimal

theorem isHexDigit_iff {c : Char} :
    IsHexDigit c ↔ (48 ≤ c.toNat ∧ c.toNat ≤ 57) ∨ (97 ≤ c.toNat ∧ c.toNat ≤ 102) ∨ (65 ≤ c.toNat ∧ c.toNat ≤ 70) := by
  simp only [IsHexDigit, Char.le_def, UInt32.le_iff_toNat_le]
  exact Iff.rfl

theorem IsHexDigit.ascii {c : Char} (h : IsHexDigit c) : c.toNat < 128 := by
  rw [isHexDigit_iff] at h
  omega

theorem isHexDigit_hexDigit : ∀ n < 16, IsHexDigit (hexDigit n) := by decide

theorem toLower_ofNat : ∀ n < 128, (Char.ofNat n).toLower = Char.ofNat (if 65 ≤ n ∧ n ≤ 90 then n + 32 else n) := by decide

end Hexadecimal
end Srh.Lib.Ascii
