import Srh.Adapters.AuthChain
import Srh.ConfigLegacy
import Srh.Lib.Pairs

/-! The digest keys of config.rs. What parse_configured_digest accepts, that it never
panics, and that digest_hex writes back what was read. -/
namespace Srh
open Srh.Lib Srh.Domain Srh.Adapters

section Checked

/-- Subtracting bytes panics below zero. -/
def byteSub (a b : UInt8) : Option UInt8 := if b ≤ a then some (a - b) else none

def byteAdd (a b : UInt8) : Option UInt8 := if a.toNat + b.toNat < 2 ^ 8 then some (a + b) else none

/-- The digit with the overflows of its arithmetic: a panic has no result. -/
def hexNibbleChecked (byte : UInt8) : Option (Option UInt8) :=
  if 48 ≤ byte ∧ byte ≤ 57 then do
    let value ← byteSub byte 48
    some (some value)
  else if 97 ≤ byte ∧ byte ≤ 102 then do
    let offset ← byteSub byte 97
    let value ← byteAdd offset 10
    some (some value)
  else if 65 ≤ byte ∧ byte ≤ 70 then do
    let offset ← byteSub byte 65
    let value ← byteAdd offset 10
    some (some value)
  else some none

def invalidDigestHex : ConfigError := .validation "sha256 token keys must contain only hex"

/-- The loop over the pairs of bytes. Each byte is written to its place, and there is
no place outside of the array. -/
def digestLoop (digest : Digest) (index : Nat) : Bytes → Option (Except ConfigError Digest)
  | first :: second :: rest => do
    let some high ← hexNibbleChecked first | some (.error invalidDigestHex)
    let some low ← hexNibbleChecked second | some (.error invalidDigestHex)
    if h : index < 32 then digestLoop (digest.set index (high <<< 4 ||| low) h) (index + 1) rest else none
  | _ => some (.ok digest)

def parseConfiguredDigestChecked (sha256 : Bytes → Digest) (token : String) : Option (Except ConfigError Digest) :=
  match "sha256:".toList.isPrefixOf? token.toList with
  | none => some (.ok (digestToken sha256 token))
  | some hex =>
    let bytes := Convert.utf8Bytes (String.ofList hex)
    if bytes.length ≠ 64 then some (invalid "sha256 token keys must contain exactly 64 hex characters")
    else digestLoop (Vector.replicate 32 0) 0 bytes

end Checked

section Pairs

def hexByte (first second : UInt8) : Except ConfigError UInt8 :=
  match hexNibble first, hexNibble second with
  | some high, some low => .ok (high <<< 4 ||| low)
  | _, _ => .error invalidDigestHex

def byteDigits (byte : UInt8) : Char × Char := (Ascii.hexDigit (byte.toNat / 16), Ascii.hexDigit (byte.toNat % 16))

private theorem hexPairs_eq (bytes : Bytes) : hexPairs bytes = Pairs.read hexByte bytes := by
  fun_induction Pairs.read hexByte bytes with
  | case1 first second rest ih =>
    rw [hexPairs, hexByte]
    cases hexNibble first with
    | none => rfl
    | some high =>
      cases hexNibble second with
      | none => rfl
      | some low =>
        dsimp only
        rw [ih]
        cases Pairs.read hexByte rest <;> rfl
  | case2 bytes hnone =>
    rcases bytes with _ | ⟨first, _ | ⟨second, rest⟩⟩
    · rfl
    · rfl
    · exact (hnone first second rest rfl).elim

private theorem digestHex_eq (digest : Digest) : digestHex digest = String.ofList (Pairs.write byteDigits digest.toList) := rfl

end Pairs

section Loop

/-- The six letters are the digits from ten on. -/
theorem toNat_letter {byte base : UInt8} (hlow : base ≤ byte) (hhigh : byte.toNat ≤ base.toNat + 5) :
    (byte - base).toNat + (10 : UInt8).toNat < 2 ^ 8 ∧ (byte - base + 10).toNat = byte.toNat - base.toNat + 10 := by
  have hsub := UInt8.toNat_sub_of_le byte base hlow
  have hten : (10 : UInt8).toNat = 10 := rfl
  rw [UInt8.toNat_add, hsub, hten]
  constructor
  · omega
  · exact Nat.mod_eq_of_lt (by omega)

private theorem letterChecked_eq {byte base : UInt8} (hlow : base ≤ byte) (hhigh : byte.toNat ≤ base.toNat + 5) :
    (do let offset ← byteSub byte base; let value ← byteAdd offset 10; some (some value)) = some (some (byte - base + 10)) := by
  rw [byteSub, if_pos hlow, Option.bind_eq_bind, Option.bind_some, byteAdd, if_pos (toNat_letter hlow hhigh).1]
  rfl

private theorem hexNibbleChecked_eq (byte : UInt8) : hexNibbleChecked byte = some (hexNibble byte) := by
  rw [hexNibbleChecked, hexNibble]
  split
  · next h =>
    rw [byteSub, if_pos h.1]
    rfl
  · split
    · next h => exact letterChecked_eq h.1 (UInt8.le_iff_toNat_le.mp h.2)
    · split
      · next h => exact letterChecked_eq h.1 (UInt8.le_iff_toNat_le.mp h.2)
      · rfl

def place (digest : Digest) (index : Nat) (values : Bytes) : Digest :=
  Vector.ofFn fun i => if i < index then digest[i] else values.getD (i - index) digest[i]

private theorem place_nil (digest : Digest) (index : Nat) : place digest index [] = digest := by
  ext i hi
  rw [place, Vector.getElem_ofFn]
  split <;> rfl

private theorem place_cons (digest : Digest) {index : Nat} (h : index < 32) (value : UInt8) (values : Bytes) :
    place (digest.set index value h) (index + 1) values = place digest index (value :: values) := by
  ext i hi
  rw [place, place, Vector.getElem_ofFn, Vector.getElem_ofFn]
  dsimp only [Fin.getElem_fin]
  rw [Vector.getElem_set]
  rcases Nat.lt_trichotomy i index with hlt | rfl | hgt
  · rw [if_pos (Nat.lt_succ_of_lt hlt), if_neg (Nat.ne_of_gt hlt), if_pos hlt]
  · rw [if_pos (Nat.lt_succ_self i), if_pos rfl, if_neg (Nat.lt_irrefl i), Nat.sub_self]
    rfl
  · have hsub : i - index = (i - (index + 1)) + 1 := by omega
    rw [if_neg (Nat.not_lt.mpr hgt), if_neg (Nat.ne_of_lt hgt), if_neg (Nat.lt_asymm hgt), hsub, List.getD_cons_succ]

/-- The loop stays inside the array when the pairs are no more than its places. -/
theorem digestLoop_eq {digest : Digest} {index : Nat} {bytes : Bytes} (h : index + bytes.length / 2 ≤ 32) :
    digestLoop digest index bytes = some ((Pairs.read hexByte bytes).map (place digest index)) := by
  fun_induction Pairs.read hexByte bytes generalizing digest index with
  | case1 first second rest ih =>
    rw [digestLoop, hexNibbleChecked_eq, hexNibbleChecked_eq, hexByte]
    cases hexNibble first with
    | none => rfl
    | some high =>
      cases hexNibble second with
      | none => rfl
      | some low =>
        rw [List.length_cons, List.length_cons] at h
        have hindex : index < 32 := by omega
        have hrest : index + 1 + rest.length / 2 ≤ 32 := by omega
        dsimp only [Option.bind_eq_bind, Option.bind_some]
        rw [dif_pos hindex, ih hrest]
        cases Pairs.read hexByte rest with
        | error e => exact Eq.refl (some (Except.error e))
        | ok values =>
          change some (Except.ok (place (digest.set index (high <<< 4 ||| low) hindex) (index + 1) values)) =
            some (Except.ok (place digest index ((high <<< 4 ||| low) :: values)))
          rw [place_cons]
  | case2 bytes hnone =>
    rcases bytes with _ | ⟨first, _ | ⟨second, rest⟩⟩
    · rw [digestLoop, Except.map, place_nil]
      · rintro _ _ _ ⟨⟩
    · rw [digestLoop, Except.map, place_nil]
      · rintro _ _ _ ⟨⟩
    · exact (hnone first second rest rfl).elim

private theorem parseConfiguredDigestChecked_eq (sha256 : Bytes → Digest) (token : String) :
    parseConfiguredDigestChecked sha256 token = some (parseConfiguredDigest sha256 token) := by
  rw [parseConfiguredDigestChecked, parseConfiguredDigest]
  cases "sha256:".toList.isPrefixOf? token.toList with
  | none => rfl
  | some hex =>
    dsimp only
    split
    · rfl
    · next hlen =>
      have hzero : place (Vector.replicate 32 0) 0 = fun values => Vector.ofFn fun i => values.getD i 0 := by
        funext values
        rw [place]
        congr 1
        funext i
        rw [if_neg (Nat.not_lt_zero _), Nat.sub_zero, Fin.getElem_fin, Vector.getElem_replicate]
      rw [digestLoop_eq (by omega), hexPairs_eq, hzero]

end Loop

section Digits

private theorem toNat_char (byte : UInt8) : (Char.ofNat byte.toNat).toNat = byte.toNat := by
  have hlt := byte.toNat_lt
  exact Utf8.toNat_ofNat (.inl (by omega))

private theorem hexNibble_hexDigit : ∀ n < 16, hexNibble (UInt8.ofNat (Ascii.hexDigit n).toNat) = some (UInt8.ofNat n) := by decide

/-- A byte is a digit when its character is one. -/
theorem hexNibble_some_iff (byte : UInt8) : (∃ value, hexNibble byte = some value) ↔ Ascii.IsHexDigit (Char.ofNat byte.toNat) := by
  rw [Ascii.isHexDigit_iff, toNat_char, hexNibble]
  simp only [UInt8.le_iff_toNat_le, UInt8.reduceToNat]
  split
  · next h => exact iff_of_true ⟨_, rfl⟩ (.inl h)
  · next hdigit =>
    split
    · next h => exact iff_of_true ⟨_, rfl⟩ (.inr (.inl h))
    · next hlower =>
      split
      · next h => exact iff_of_true ⟨_, rfl⟩ (.inr (.inr h))
      · next hupper =>
        refine iff_of_false ?_ ?_
        · rintro ⟨_, ⟨⟩⟩
        · rintro (h | h | h)
          · exact hdigit h
          · exact hlower h
          · exact hupper h

def lowerChar (byte : UInt8) : Char := (Char.ofNat byte.toNat).toLower

private theorem hexDigit_eq_lowerChar {byte : UInt8} {n : Nat} (hascii : byte.toNat < 128)
    (h : (if n < 10 then 48 + n else 87 + n) = if 65 ≤ byte.toNat ∧ byte.toNat ≤ 90 then byte.toNat + 32 else byte.toNat) :
    Ascii.hexDigit n = lowerChar byte := by
  rw [lowerChar, Ascii.toLower_ofNat _ hascii, ← h, Ascii.hexDigit, apply_ite Char.ofNat]

private theorem hexDigit_of_hexNibble {byte value : UInt8} (h : hexNibble byte = some value) :
    value.toNat < 16 ∧ Ascii.hexDigit value.toNat = lowerChar byte := by
  rw [hexNibble] at h
  split at h
  · next hb =>
    cases h
    rw [UInt8.toNat_sub_of_le _ _ hb.1]
    simp only [UInt8.le_iff_toNat_le, UInt8.reduceToNat] at hb ⊢
    exact ⟨by omega, hexDigit_eq_lowerChar (by omega) (by rw [if_pos, if_neg] <;> omega)⟩
  · split at h
    · next hb =>
      cases h
      rw [(toNat_letter hb.1 (UInt8.le_iff_toNat_le.mp hb.2)).2]
      simp only [UInt8.le_iff_toNat_le, UInt8.reduceToNat] at hb ⊢
      exact ⟨by omega, hexDigit_eq_lowerChar (by omega) (by rw [if_neg, if_neg] <;> omega)⟩
    · split at h
      · next hb =>
        cases h
        rw [(toNat_letter hb.1 (UInt8.le_iff_toNat_le.mp hb.2)).2]
        simp only [UInt8.le_iff_toNat_le, UInt8.reduceToNat] at hb ⊢
        exact ⟨by omega, hexDigit_eq_lowerChar (by omega) (by rw [if_neg, if_pos] <;> omega)⟩
      · cases h

/-- No bit of the high digit is shifted out. -/
theorem toNat_join {high low : UInt8} (hhigh : high.toNat < 16) (hlow : low.toNat < 16) :
    (high <<< 4 ||| low).toNat = 16 * high.toNat + low.toNat := by
  have hshift : (high <<< 4).toNat = high.toNat <<< 4 := by
    rw [UInt8.toNat_shiftLeft]
    change high.toNat <<< 4 % 2 ^ 8 = _
    rw [Nat.shiftLeft_eq, Nat.mod_eq_of_lt (by omega)]
  have hor := Nat.shiftLeft_add_eq_or_of_lt (i := 4) hlow high.toNat
  rw [UInt8.toNat_or, hshift, ← hor, Nat.shiftLeft_eq]
  omega

private theorem hexByte_eq_ok {first second byte : UInt8} :
    hexByte first second = .ok byte ↔
      ∃ high low, hexNibble first = some high ∧ hexNibble second = some low ∧ byte = high <<< 4 ||| low := by
  rw [hexByte]
  constructor
  · intro h
    split at h
    · next high low hhigh hlow => exact ⟨high, low, hhigh, hlow, (Except.ok.inj h).symm⟩
    · cases h
  · rintro ⟨high, low, hhigh, hlow, rfl⟩
    rw [hhigh, hlow]

private theorem hexByte_ok_iff (first second : UInt8) :
    (∃ byte, hexByte first second = .ok byte) ↔
      Ascii.IsHexDigit (Char.ofNat first.toNat) ∧ Ascii.IsHexDigit (Char.ofNat second.toNat) := by
  rw [← hexNibble_some_iff, ← hexNibble_some_iff]
  simp only [hexByte_eq_ok]
  constructor
  · rintro ⟨byte, high, low, hhigh, hlow, -⟩
    exact ⟨⟨high, hhigh⟩, low, hlow⟩
  · rintro ⟨⟨high, hhigh⟩, low, hlow⟩
    exact ⟨_, high, low, hhigh, hlow, rfl⟩

/-- The digits of a byte are read as that byte. -/
theorem hexByte_byteDigits (byte : UInt8) :
    hexByte (UInt8.ofNat (byteDigits byte).1.toNat) (UInt8.ofNat (byteDigits byte).2.toNat) = .ok byte := by
  have hlt := byte.toNat_lt
  have hhigh : (UInt8.ofNat (byte.toNat / 16)).toNat = byte.toNat / 16 := by
    rw [UInt8.toNat_ofNat']
    omega
  have hlow : (UInt8.ofNat (byte.toNat % 16)).toNat = byte.toNat % 16 := by
    rw [UInt8.toNat_ofNat']
    omega
  refine hexByte_eq_ok.mpr ⟨_, _, hexNibble_hexDigit _ (by omega), hexNibble_hexDigit _ (by omega), UInt8.toNat_inj.mp ?_⟩
  rw [toNat_join (by omega) (by omega), hhigh, hlow]
  omega

/-- The digits of a byte are those it was read from, in lower case. -/
theorem byteDigits_of_hexByte {first second byte : UInt8} (h : hexByte first second = .ok byte) :
    byteDigits byte = (lowerChar first, lowerChar second) := by
  obtain ⟨high, low, hhigh, hlow, rfl⟩ := hexByte_eq_ok.mp h
  obtain ⟨hhighlt, hfirst⟩ := hexDigit_of_hexNibble hhigh
  obtain ⟨hlowlt, hsecond⟩ := hexDigit_of_hexNibble hlow
  have hdiv : (16 * high.toNat + low.toNat) / 16 = high.toNat := by omega
  have hmod : (16 * high.toNat + low.toNat) % 16 = low.toNat := by omega
  rw [byteDigits, toNat_join hhighlt hlowlt, hdiv, hmod, hfirst, hsecond]

end Digits

section Keys

def IsDigestHex (hex : String) : Prop := hex.length = 64 ∧ ∀ c ∈ hex.toList, Ascii.IsHexDigit c

instance (hex : String) : Decidable (IsDigestHex hex) := inferInstanceAs (Decidable (_ ∧ _))

/-- The length and the digits are checked on bytes. A character of several bytes has
none that is a digit. -/
theorem bytes_isDigestHex {hex : String} :
    ((Convert.utf8Bytes hex).length = 64 ∧ ∀ byte ∈ Convert.utf8Bytes hex, Ascii.IsHexDigit (Char.ofNat byte.toNat)) ↔
      IsDigestHex hex := by
  have hsame : (∀ c ∈ hex.toList, c.toNat < 128) →
      (((Convert.utf8Bytes hex).length = 64 ∧ ∀ byte ∈ Convert.utf8Bytes hex, Ascii.IsHexDigit (Char.ofNat byte.toNat)) ↔
        IsDigestHex hex) := by
    intro hascii
    have hlen : (Ascii.bytes hex).length = hex.length := by rw [Ascii.bytes, List.length_map, String.length_toList]
    have hchars := Ascii.chars_bytes hascii
    rw [Convert.utf8Bytes, Utf8.toUTF8_ascii hascii, IsDigestHex, hlen, ← hchars, List.forall_mem_map]
  constructor
  · intro h
    refine (hsame ?_).mp h
    apply Utf8.ascii_of_toUTF8
    intro byte hb
    rw [← toNat_char byte]
    exact (h.2 byte hb).ascii
  · intro h
    exact (hsame fun c hc => (h.2 c hc).ascii).mpr h

private theorem toList_ofFn_getD {values : Bytes} (h : values.length = 32) :
    (Vector.ofFn fun i : Fin 32 => values.getD i 0).toList = values := by
  rw [Vector.toList_ofFn]
  apply List.ext_getElem
  · rw [List.length_ofFn, h]
  · intro i _ hi
    rw [List.getElem_ofFn, List.getD_eq_getElem?_getD, List.getElem?_eq_getElem hi, Option.getD_some]

variable {sha256 : Bytes → Digest} {hex : String} {digest : Digest}

private theorem length_of_read {bytes values : Bytes} (hlen : bytes.length = 64) (hread : Pairs.read hexByte bytes = .ok values) :
    values.length = 32 := by
  have hwrite := Pairs.write_of_read (fun _ _ _ h => byteDigits_of_hexByte h) (by omega) hread
  have hlength := congrArg List.length hwrite
  rw [Pairs.length_write, List.length_map] at hlength
  omega

/-- A key is accepted when its bytes are read as the digest, with none left over. -/
theorem parse_key_eq_ok :
    parseConfiguredDigest sha256 ("sha256:" ++ hex) = .ok digest ↔
      (Convert.utf8Bytes hex).length = 64 ∧ Pairs.read hexByte (Convert.utf8Bytes hex) = .ok digest.toList := by
  rw [parseConfiguredDigest_key, hexPairs_eq, invalid, reject_eq_ok, not_not]
  refine and_congr_right fun hlen => ?_
  cases hread : Pairs.read hexByte (Convert.utf8Bytes hex) with
  | error e =>
    constructor
    · intro h
      cases h
    · intro h
      cases h
  | ok values =>
    have hvalues := toList_ofFn_getD (length_of_read hlen hread)
    rw [Except.map, Except.ok.injEq, Except.ok.injEq, ← Vector.toList_inj, hvalues]

private theorem ascii_digestHex (digest : Digest) : ∀ c ∈ (digestHex digest).toList, c.toNat < 128 := by
  rw [digestHex_eq, String.toList_ofList]
  intro c hc
  obtain ⟨byte, -, hmem⟩ := List.mem_flatMap.mp hc
  have hlt := byte.toNat_lt
  rcases List.mem_pair.mp hmem with rfl | rfl
  · exact (Ascii.isHexDigit_hexDigit _ (by omega)).ascii
  · exact (Ascii.isHexDigit_hexDigit _ (by omega)).ascii

private theorem parse_digestHex (sha256 : Bytes → Digest) (digest : Digest) :
    parseConfiguredDigest sha256 ("sha256:" ++ digestHex digest) = .ok digest := by
  have hbytes : Convert.utf8Bytes (digestHex digest) =
      (Pairs.write byteDigits digest.toList).map fun c => UInt8.ofNat c.toNat := by
    rw [Convert.utf8Bytes, Utf8.toUTF8_ascii (ascii_digestHex digest), Ascii.bytes, digestHex_eq, String.toList_ofList]
  refine parse_key_eq_ok.mpr ⟨?_, ?_⟩
  · rw [hbytes, List.length_map, Pairs.length_write, Vector.length_toList]
  · rw [hbytes]
    exact Pairs.read_write _ hexByte_byteDigits digest.toList

private theorem parse_key_ok_iff (sha256 : Bytes → Digest) (hex : String) :
    (∃ digest, parseConfiguredDigest sha256 ("sha256:" ++ hex) = .ok digest) ↔ IsDigestHex hex := by
  rw [← bytes_isDigestHex]
  simp only [parse_key_eq_ok]
  constructor
  · rintro ⟨digest, hlen, hread⟩
    exact ⟨hlen, (Pairs.read_ok_iff hexByte_ok_iff (by omega)).mp ⟨_, hread⟩⟩
  · rintro ⟨hlen, hall⟩
    obtain ⟨values, hread⟩ := (Pairs.read_ok_iff hexByte_ok_iff (by omega)).mpr hall
    refine ⟨Vector.ofFn fun i => values.getD i 0, hlen, ?_⟩
    rw [toList_ofFn_getD (length_of_read hlen hread), hread]

/-- All of the key is in the digest that is read. -/
theorem digestHex_of_parse (h : parseConfiguredDigest sha256 ("sha256:" ++ hex) = .ok digest) :
    digestHex digest = Ascii.lowercaseText hex := by
  have hhex : IsDigestHex hex := (parse_key_ok_iff sha256 hex).mp ⟨digest, h⟩
  have hascii : ∀ c ∈ hex.toList, c.toNat < 128 := fun c hc => (hhex.2 c hc).ascii
  obtain ⟨hlen, hread⟩ := parse_key_eq_ok.mp h
  have hwrite := Pairs.write_of_read (fun _ _ _ hbyte => byteDigits_of_hexByte hbyte) (by omega) hread
  have hlower : (Ascii.bytes hex).map lowerChar = hex.toList.map Char.toLower := by
    rw [← Ascii.chars_bytes hascii, List.map_map]
    rfl
  rw [Convert.utf8Bytes, Utf8.toUTF8_ascii hascii, hlower] at hwrite
  rw [digestHex_eq, hwrite, Ascii.lowercaseText]

private theorem digestHex_injective : Function.Injective digestHex := by
  intro digest other h
  have hdigest := parse_digestHex (fun _ => digest) digest
  rw [h, parse_digestHex] at hdigest
  exact (Except.ok.inj hdigest).symm

end Keys

section Tokens
variable {tokens : FiniteMap Digest StaticTokenConfig} {digest other : Digest} {identity identity' : Identity}

/-- A digest and the bucket of its token determine each other. -/
theorem bucketKey_eq_iff (h : (StaticAuth.new tokens).identities digest = some identity)
    (h' : (StaticAuth.new tokens).identities other = some identity') :
    identity.bucketKey = identity'.bucketKey ↔ digest = other := by
  obtain ⟨token, -, rfl⟩ := Option.map_eq_some_iff.mp h
  obtain ⟨token', -, rfl⟩ := Option.map_eq_some_iff.mp h'
  exact digestHex_injective.eq_iff

private theorem authenticate_eq_some {sha256 : Bytes → Digest} {bearer : String}
    (h : (StaticAuth.new tokens).authenticate sha256 bearer = .done (.ok (some identity))) :
    (StaticAuth.new tokens).identities (digestToken sha256 bearer) = some identity := by
  injection h with h
  exact Except.ok.inj h

end Tokens

/-- Every digest is read back from its key. A key is accepted exactly when it is
sixty-four hexadecimal digits, no token makes the reader panic, and what it reads is
written back in lower case; so no two static tokens share a bucket of the rate limiter. -/
theorem digest_keys_round_trip (sha256 : Bytes → Digest) :
    (∀ digest, parseConfiguredDigest sha256 ("sha256:" ++ digestHex digest) = .ok digest) ∧
    (∀ hex, (∃ digest, parseConfiguredDigest sha256 ("sha256:" ++ hex) = .ok digest) ↔ IsDigestHex hex) ∧
    (∀ token, parseConfiguredDigestChecked sha256 token = some (parseConfiguredDigest sha256 token)) ∧
    (∀ hex digest, parseConfiguredDigest sha256 ("sha256:" ++ hex) = .ok digest → digestHex digest = Ascii.lowercaseText hex) ∧
    Function.Injective digestHex ∧
    (∀ (tokens : FiniteMap Digest StaticTokenConfig) (digest other : Digest) (identity identity' : Identity),
      (StaticAuth.new tokens).identities digest = some identity →
      (StaticAuth.new tokens).identities other = some identity' →
      digest ≠ other → identity.bucketKey ≠ identity'.bucketKey) ∧
    ∀ (tokens : FiniteMap Digest StaticTokenConfig) (bearer other : String) (identity identity' : Identity),
      (StaticAuth.new tokens).authenticate sha256 bearer = .done (.ok (some identity)) →
      (StaticAuth.new tokens).authenticate sha256 other = .done (.ok (some identity')) →
      digestToken sha256 bearer ≠ digestToken sha256 other → identity.bucketKey ≠ identity'.bucketKey := by
  refine ⟨parse_digestHex sha256, parse_key_ok_iff sha256, parseConfiguredDigestChecked_eq sha256,
    fun hex digest => digestHex_of_parse, digestHex_injective, ?_, ?_⟩
  · intro tokens digest other identity identity' h h'
    exact mt (bucketKey_eq_iff h h').mp
  · intro tokens bearer other identity identity' h h'
    exact mt (bucketKey_eq_iff (authenticate_eq_some h) (authenticate_eq_some h')).mp

def twoTokens : FiniteMap Digest StaticTokenConfig :=
  (FiniteMap.empty.insert (firstByte [97]) (defaultToken "cache" false)).insert (firstByte [98]) (defaultToken "cache" false)

theorem digest_keys_round_trip_two :
    digestHex (Vector.replicate 32 0xAA) = Ascii.lowercaseText (String.ofList (List.replicate 64 'A')) ∧
    ∃ identity identity',
      (StaticAuth.new twoTokens).authenticate firstByte "a" = .done (.ok (some identity)) ∧
      (StaticAuth.new twoTokens).authenticate firstByte "b" = .done (.ok (some identity')) ∧
      identity.bucketKey ≠ identity'.bucketKey := by
  obtain ⟨-, -, -, hlower, -, -, hkeys⟩ := digest_keys_round_trip firstByte
  have hupper := entryDigest_spelling firstByte (readingCache true) (List.mem_pair.mpr (.inr (Eq.refl 'A')))
  exact ⟨hlower (String.ofList (List.replicate 64 'A')) (Vector.replicate 32 0xAA) hupper,
    _, _, rfl, rfl, hkeys twoTokens "a" "b" _ _ rfl rfl (by decide)⟩

end Srh
