import Mathlib.Data.List.Basic

/-! Base64: the standard alphabet with padding and the URL-safe one without. -/
namespace Srh.Lib.Base64

def digit (n : Nat) : Char :=
  if n < 26 then Char.ofNat (65 + n)
  else if n < 52 then Char.ofNat (71 + n)
  else if n < 62 then Char.ofNat (n - 4)
  else if n = 62 then '+' else '/'

def group (a b c : UInt8) : List Nat :=
  [a.toNat / 4, a.toNat % 4 * 16 + b.toNat / 16, b.toNat % 16 * 4 + c.toNat / 64, c.toNat % 64]

def encodeChars : List UInt8 → List Char
  | [] => []
  | [a] => ((group a 0 0).take 2).map digit ++ ['=', '=']
  | [a, b] => ((group a b 0).take 3).map digit ++ ['=']
  | a :: b :: c :: rest => (group a b c).map digit ++ encodeChars rest

def encode (bytes : List UInt8) : String := String.ofList (encodeChars bytes)

example : encode [0x4F, 0x4B, 0xFF, 0x3E] = "T0v/Pg==" := by decide

/-- Sixty-four digits that can be told apart and from the padding. -/
structure Alphabet where
  digit : Nat → Char
  value : Char → Option Nat
  value_digit : ∀ n < 64, value (digit n) = some n

def valueOf (last previous : Char) (c : Char) : Option Nat :=
  if 65 ≤ c.toNat ∧ c.toNat ≤ 90 then some (c.toNat - 65)
  else if 97 ≤ c.toNat ∧ c.toNat ≤ 122 then some (c.toNat - 71)
  else if 48 ≤ c.toNat ∧ c.toNat ≤ 57 then some (c.toNat + 4)
  else if c = previous then some 62
  else if c = last then some 63
  else none

def standard : Alphabet := ⟨digit, valueOf '/' '+', by decide⟩

def urlSafe : Alphabet where
  digit n := if n = 62 then '-' else if n = 63 then '_' else digit n
  value := valueOf '_' '-'
  value_digit := by decide

section Unpadded
variable (alphabet : Alphabet)

def digits : List UInt8 → List Char
  | [] => []
  | [a] => ((group a 0 0).take 2).map alphabet.digit
  | [a, b] => ((group a b 0).take 3).map alphabet.digit
  | a :: b :: c :: rest => (group a b c).map alphabet.digit ++ digits rest

/-- The bytes that digits stand for. The bits that a last partial group does not
use must be zero. -/
def undigits : List Char → Option (List UInt8)
  | [] => some []
  | [_] => none
  | [c, d] => do
    let x ← alphabet.value c
    let y ← alphabet.value d
    if y % 16 = 0 then some [UInt8.ofNat (x * 4 + y / 16)] else none
  | [c, d, e] => do
    let x ← alphabet.value c
    let y ← alphabet.value d
    let z ← alphabet.value e
    if z % 4 = 0 then some [UInt8.ofNat (x * 4 + y / 16), UInt8.ofNat (y % 16 * 16 + z / 4)] else none
  | c :: d :: e :: f :: rest => do
    let x ← alphabet.value c
    let y ← alphabet.value d
    let z ← alphabet.value e
    let w ← alphabet.value f
    let bytes ← undigits rest
    some (UInt8.ofNat (x * 4 + y / 16) :: UInt8.ofNat (y % 16 * 16 + z / 4) :: UInt8.ofNat (z % 4 * 64 + w) :: bytes)

end Unpadded

def unpad : List Char → Option (List Char)
  | [] => some []
  | [c, d, '=', '='] => some [c, d]
  | [c, d, e, '='] => some [c, d, e]
  | c :: d :: e :: f :: rest => (unpad rest).map fun cs => c :: d :: e :: f :: cs
  | _ => none

def decode (text : String) : Option (List UInt8) := (unpad text.toList).bind (undigits standard)

def encodeUrl (bytes : List UInt8) : String := String.ofList (digits urlSafe bytes)

def decodeUrl (text : String) : Option (List UInt8) := undigits urlSafe text.toList

section RoundTrip

private theorem first_byte (a : UInt8) {low : Nat} (h : low < 16) :
    UInt8.ofNat (a.toNat / 4 * 4 + (a.toNat % 4 * 16 + low) / 16) = a := by
  rw [show a.toNat / 4 * 4 + (a.toNat % 4 * 16 + low) / 16 = a.toNat by omega, UInt8.ofNat_toNat]

private theorem second_byte (b : UInt8) (high : Nat) {low : Nat} (h : low < 4) :
    UInt8.ofNat ((high * 16 + b.toNat / 16) % 16 * 16 + (b.toNat % 16 * 4 + low) / 4) = b := by
  have hb := b.toNat_lt
  rw [show (high * 16 + b.toNat / 16) % 16 * 16 + (b.toNat % 16 * 4 + low) / 4 = b.toNat by omega, UInt8.ofNat_toNat]

private theorem third_byte (c : UInt8) (high : Nat) :
    UInt8.ofNat ((high * 4 + c.toNat / 64) % 4 * 64 + c.toNat % 64) = c := by
  have hc := c.toNat_lt
  rw [show (high * 4 + c.toNat / 64) % 4 * 64 + c.toNat % 64 = c.toNat by omega, UInt8.ofNat_toNat]

private theorem undigits_digits (alphabet : Alphabet) (bytes : List UInt8) :
    undigits alphabet (digits alphabet bytes) = some bytes := by
  induction bytes using digits.induct with
  | case1 => rfl
  | case2 a =>
    have ha := a.toNat_lt
    have h1 := alphabet.value_digit (a.toNat / 4) (by omega)
    have h2 := alphabet.value_digit (a.toNat % 4 * 16 + 0) (by omega)
    simp only [digits, group, List.take, List.map, undigits, UInt8.toNat_zero, Nat.zero_div, h1, h2, Option.bind_eq_bind,
      Option.bind_some]
    rw [if_pos (by omega), first_byte a (by decide)]
  | case3 a b =>
    have ha := a.toNat_lt
    have hb := b.toNat_lt
    have h1 := alphabet.value_digit (a.toNat / 4) (by omega)
    have h2 := alphabet.value_digit (a.toNat % 4 * 16 + b.toNat / 16) (by omega)
    have h3 := alphabet.value_digit (b.toNat % 16 * 4 + 0) (by omega)
    simp only [digits, group, List.take, List.map, undigits, UInt8.toNat_zero, Nat.zero_div, h1, h2, h3,
      Option.bind_eq_bind, Option.bind_some]
    rw [if_pos (by omega), first_byte a (by omega), second_byte b _ (by decide)]
  | case4 a b c rest ih =>
    have ha := a.toNat_lt
    have hb := b.toNat_lt
    have hc := c.toNat_lt
    have h1 := alphabet.value_digit (a.toNat / 4) (by omega)
    have h2 := alphabet.value_digit (a.toNat % 4 * 16 + b.toNat / 16) (by omega)
    have h3 := alphabet.value_digit (b.toNat % 16 * 4 + c.toNat / 64) (by omega)
    have h4 := alphabet.value_digit (c.toNat % 64) (by omega)
    simp only [digits, group, List.map, List.cons_append, List.nil_append, undigits, h1, h2, h3, h4, ih,
      Option.bind_eq_bind, Option.bind_some]
    rw [first_byte a (by omega), second_byte b _ (by omega), third_byte]

theorem decodeUrl_encodeUrl (bytes : List UInt8) : decodeUrl (encodeUrl bytes) = some bytes := by
  rw [decodeUrl, encodeUrl, String.toList_ofList, undigits_digits]

/-- No digit is the padding character. -/
theorem digit_ne_pad {n : Nat} (h : n < 64) : digit n ≠ '=' := by
  intro he
  have hv := standard.value_digit n h
  rw [show standard.digit n = digit n from rfl, he] at hv
  cases hv

private theorem unpad_group {c d e f : Char} (rest : List Char) (hf : f ≠ '=') :
    unpad (c :: d :: e :: f :: rest) = (unpad rest).map fun cs => c :: d :: e :: f :: cs := by
  rw [unpad]
  · exact fun _ h _ => hf h
  · exact fun h _ => hf h

private theorem unpad_last {c d e : Char} (he : e ≠ '=') : unpad [c, d, e, '='] = some [c, d, e] := by
  rw [unpad]
  exact he

private theorem unpad_encodeChars (bytes : List UInt8) : unpad (encodeChars bytes) = some (digits standard bytes) := by
  induction bytes using digits.induct with
  | case1 => rfl
  | case2 a => rfl
  | case3 a b =>
    have hlow : b.toNat % 16 * 4 + (0 : UInt8).toNat / 64 < 64 := by
      rw [UInt8.toNat_zero]
      omega
    exact unpad_last (digit_ne_pad hlow)
  | case4 a b c rest ih =>
    have hc := c.toNat_lt
    rw [encodeChars, group]
    simp only [List.map, List.cons_append, List.nil_append]
    rw [unpad_group _ (digit_ne_pad (by omega)), ih]
    rfl

theorem decode_encode (bytes : List UInt8) : decode (encode bytes) = some bytes := by
  rw [decode, encode, String.toList_ofList, unpad_encodeChars, Option.bind_some, undigits_digits]

end RoundTrip

section Length

theorem length_encodeChars (bytes : List UInt8) : (encodeChars bytes).length = (bytes.length + 2) / 3 * 4 := by
  induction bytes using encodeChars.induct with
  | case1 => rfl
  | case2 a => simp [encodeChars, group]
  | case3 a b => simp [encodeChars, group]
  | case4 a b c rest ih =>
    rw [encodeChars, List.length_append, List.length_map, ih]
    simp only [group, List.length_cons, List.length_nil]
    omega

private theorem digit_ascii : ∀ n < 64, (digit n).toNat < 128 := by decide

private theorem group_lt (a b c : UInt8) : ∀ n ∈ group a b c, n < 64 := by
  have ha := a.toNat_lt
  have hb := b.toNat_lt
  have hc := c.toNat_lt
  intro n hn
  simp only [group, List.mem_cons, List.not_mem_nil, or_false] at hn
  omega

private theorem urlSafe_digit_ne_dot : ∀ n < 64, urlSafe.digit n ≠ '.' := by decide

theorem dot_not_mem_digits (bytes : List UInt8) : '.' ∉ digits urlSafe bytes := by
  have hdigit : ∀ {ns : List Nat}, (∀ n ∈ ns, n < 64) → '.' ∉ ns.map urlSafe.digit := by
    intro ns hns hc
    obtain ⟨n, hn, he⟩ := List.mem_map.mp hc
    exact urlSafe_digit_ne_dot n (hns n hn) he
  induction bytes using digits.induct with
  | case1 => exact List.not_mem_nil
  | case2 a => exact hdigit fun n hn => group_lt a 0 0 n (List.mem_of_mem_take hn)
  | case3 a b => exact hdigit fun n hn => group_lt a b 0 n (List.mem_of_mem_take hn)
  | case4 a b c rest ih =>
    rw [digits, List.mem_append]
    exact not_or.mpr ⟨hdigit (group_lt a b c), ih⟩

theorem encodeChars_ascii (bytes : List UInt8) : ∀ c ∈ encodeChars bytes, c.toNat < 128 := by
  have hdigit : ∀ {ns : List Nat}, (∀ n ∈ ns, n < 64) → ∀ c ∈ ns.map digit, c.toNat < 128 := by
    intro ns hns c hc
    obtain ⟨n, hn, rfl⟩ := List.mem_map.mp hc
    exact digit_ascii n (hns n hn)
  have hpad : ∀ c ∈ ['=', '='], c.toNat < 128 := by simp
  induction bytes using encodeChars.induct with
  | case1 => exact fun c hc => absurd hc List.not_mem_nil
  | case2 a =>
    rw [encodeChars, List.forall_mem_append]
    exact ⟨hdigit fun n hn => group_lt a 0 0 n (List.mem_of_mem_take hn), hpad⟩
  | case3 a b =>
    rw [encodeChars, List.forall_mem_append]
    exact ⟨hdigit fun n hn => group_lt a b 0 n (List.mem_of_mem_take hn), fun c hc => hpad c (List.mem_cons_of_mem _ hc)⟩
  | case4 a b c rest ih =>
    rw [encodeChars, List.forall_mem_append]
    exact ⟨hdigit (group_lt a b c), ih⟩

end Length

end Srh.Lib.Base64
