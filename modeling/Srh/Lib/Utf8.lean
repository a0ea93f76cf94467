import Mathlib.Algebra.Group.Nat.Defs
import Srh.Lib.Ascii

/-! UTF-8 decoding of byte lists. An ill-formed sequence ends at its first byte
that cannot continue it, and stands for one replacement character. -/
namespace Srh.Lib.Utf8

def isContinuation (b : UInt8) : Bool := 0x80 ≤ b ∧ b ≤ 0xBF

def secondOfThree (lead second : UInt8) : Bool :=
  if lead = 0xE0 then 0xA0 ≤ second ∧ second ≤ 0xBF
  else if lead = 0xED then 0x80 ≤ second ∧ second ≤ 0x9F
  else isContinuation second

def secondOfFour (lead second : UInt8) : Bool :=
  if lead = 0xF0 then 0x90 ≤ second ∧ second ≤ 0xBF
  else if lead = 0xF4 then 0x80 ≤ second ∧ second ≤ 0x8F
  else isContinuation second

def shift (code : Nat) (b : UInt8) : Nat := code * 64 + b.toNat % 64

def tail (code : Nat) : Nat → List UInt8 → Option Char × List UInt8
  | 0, rest => (some (Char.ofNat code), rest)
  | _ + 1, [] => (none, [])
  | n + 1, b :: rest => if isContinuation b then tail (shift code b) n rest else (none, b :: rest)

/-- The character that a lead byte starts, if its sequence is well formed, and the
bytes after the sequence. -/
def next (lead : UInt8) (rest : List UInt8) : Option Char × List UInt8 :=
  if lead < 0x80 then (some (Char.ofNat lead.toNat), rest)
  else if 0xC2 ≤ lead ∧ lead ≤ 0xDF then tail (lead.toNat % 32) 1 rest
  else match rest with
    | [] => (none, [])
    | second :: rest =>
      if 0xE0 ≤ lead ∧ lead ≤ 0xEF ∧ secondOfThree lead second then tail (shift (lead.toNat % 16) second) 1 rest
      else if 0xF0 ≤ lead ∧ lead ≤ 0xF4 ∧ secondOfFour lead second then tail (shift (lead.toNat % 8) second) 2 rest
      else (none, second :: rest)

/-- The characters of a byte list, none for each ill-formed sequence. Every step
consumes a byte, so the length bounds the steps. -/
def decode : Nat → List UInt8 → List (Option Char)
  | 0, _ => []
  | _, [] => []
  | n + 1, lead :: rest => (next lead rest).1 :: decode n (next lead rest).2

def fromUtf8Lossy (bytes : List UInt8) : String :=
  String.ofList ((decode bytes.length bytes).map (·.getD (Char.ofNat 0xFFFD)))

def fromUtf8 (bytes : List UInt8) : Option String := ((decode bytes.length bytes).mapM id).map String.ofList

example : fromUtf8Lossy [0x4F, 0x4B, 0xE2, 0x82, 0x4B, 0xFF] = String.ofList
    ['O', 'K', Char.ofNat 0xFFFD, 'K', Char.ofNat 0xFFFD] := by decide

/-- A sequence that is completed spells a code in the range of its lead. -/
theorem tail_some {code n : Nat} {rest after : List UInt8} {c : Char} (h : tail code n rest = (some c, after)) :
    ∃ k, k < 64 ^ n ∧ c = Char.ofNat (code * 64 ^ n + k) := by
  induction n generalizing code rest with
  | zero =>
    cases h
    exact ⟨0, by simp, by simp⟩
  | succ n ih =>
    cases rest with
    | nil => cases h
    | cons b rest =>
      rw [tail] at h
      split at h
      · obtain ⟨k, hk, rfl⟩ := ih h
        refine ⟨b.toNat % 64 * 64 ^ n + k, ?_, ?_⟩
        · have hb : b.toNat % 64 < 64 := Nat.mod_lt _ (by decide)
          calc b.toNat % 64 * 64 ^ n + k < b.toNat % 64 * 64 ^ n + 64 ^ n := by omega
            _ = (b.toNat % 64 + 1) * 64 ^ n := by rw [Nat.add_mul, Nat.one_mul]
            _ ≤ 64 * 64 ^ n := Nat.mul_le_mul_right _ hb
            _ = 64 ^ (n + 1) := by rw [Nat.pow_succ, Nat.mul_comm]
        · rw [shift, Nat.pow_succ]
          congr 1
          rw [Nat.add_mul, Nat.mul_assoc, Nat.mul_comm 64, Nat.add_assoc]
      · cases h

theorem toNat_ofNat {n : Nat} (h : n.isValidChar) : (Char.ofNat n).toNat = n := by
  rw [Char.ofNat, dif_pos h]
  rfl

/-- Whether the codes that a sequence can still spell are all characters beyond
ASCII, given the code so far and the number of bytes to come. -/
def Beyond (code n : Nat) : Prop :=
  128 ≤ code * 64 ^ n ∧ ((code + 1) * 64 ^ n ≤ 0xD800 ∨ (0xE000 ≤ code * 64 ^ n ∧ (code + 1) * 64 ^ n ≤ 0x110000))

def shown (c : Option Char) : Char := c.getD (Char.ofNat 0xFFFD)

private theorem shown_none_beyond : 128 ≤ (shown none).toNat := by decide

private theorem tail_beyond {code n : Nat} {rest : List UInt8} (h : Beyond code n) : 128 ≤ (shown (tail code n rest).1).toNat := by
  cases ht : (tail code n rest).1 with
  | none => exact shown_none_beyond
  | some c =>
    obtain ⟨k, hk, rfl⟩ := tail_some (Prod.ext ht rfl)
    obtain ⟨hlo, hhi⟩ := h
    rw [Nat.add_mul, Nat.one_mul] at hhi
    rw [shown, Option.getD_some, toNat_ofNat]
    · omega
    · rw [Nat.isValidChar]
      omega

private theorem secondOfThree_beyond {lead second : UInt8} (hlo : 0xE0 ≤ lead) (hhi : lead ≤ 0xEF)
    (h : secondOfThree lead second) : Beyond (shift (lead.toNat % 16) second) 1 := by
  simp only [secondOfThree, isContinuation, UInt8.le_iff_toNat_le, ← UInt8.toNat_inj, UInt8.reduceToNat] at hlo hhi h
  rw [Beyond, shift]
  split at h
  · simp only [decide_eq_true_eq] at h
    omega
  · split at h
    all_goals
      simp only [decide_eq_true_eq] at h
      omega

private theorem secondOfFour_beyond {lead second : UInt8} (hlo : 0xF0 ≤ lead) (hhi : lead ≤ 0xF4)
    (h : secondOfFour lead second) : Beyond (shift (lead.toNat % 8) second) 2 := by
  simp only [secondOfFour, isContinuation, UInt8.le_iff_toNat_le, ← UInt8.toNat_inj, UInt8.reduceToNat] at hlo hhi h
  rw [Beyond, shift]
  split at h
  · simp only [decide_eq_true_eq] at h
    omega
  · split at h
    all_goals
      simp only [decide_eq_true_eq] at h
      omega

/-- Only a byte below 0x80 starts an ASCII character. -/
theorem next_beyond {lead : UInt8} (rest : List UInt8) (h : ¬ lead < 0x80) : 128 ≤ (shown (next lead rest).1).toNat := by
  rw [next.eq_def, if_neg h]
  split
  · rename_i hl
    apply tail_beyond
    simp only [UInt8.le_iff_toNat_le, UInt8.reduceToNat] at hl
    rw [Beyond]
    omega
  · split
    · exact shown_none_beyond
    · split
      · rename_i hl
        exact tail_beyond (secondOfThree_beyond hl.1 hl.2.1 hl.2.2)
      · split
        · rename_i hl
          exact tail_beyond (secondOfFour_beyond hl.1 hl.2.1 hl.2.2)
        · exact shown_none_beyond

private theorem decode_ascii {n : Nat} {bytes : List UInt8} (hn : bytes.length ≤ n)
    (h : ∀ c ∈ (decode n bytes).map shown, c.toNat < 128) :
    (decode n bytes).map shown = bytes.map fun b => Char.ofNat b.toNat := by
  induction n generalizing bytes with
  | zero =>
    rw [List.length_eq_zero_iff.mp (Nat.le_zero.mp hn)]
    rfl
  | succ n ih =>
    cases bytes with
    | nil => rfl
    | cons lead rest =>
      rw [decode, List.map_cons, List.forall_mem_cons] at h
      have hl : lead < 0x80 := by
        by_contra hl
        exact absurd h.1 (Nat.not_lt.mpr (next_beyond rest hl))
      have hnext : next lead rest = (some (Char.ofNat lead.toNat), rest) := by rw [next.eq_def, if_pos hl]
      rw [hnext] at h
      rw [decode, hnext, List.map_cons, List.map_cons, ih (Nat.le_of_succ_le_succ hn) h.2]
      rfl

/-- A lossy text of ASCII characters only is the text of the bytes themselves. -/
theorem fromUtf8Lossy_ascii {bytes : List UInt8} (h : ∀ c ∈ (fromUtf8Lossy bytes).toList, c.toNat < 128) :
    (fromUtf8Lossy bytes).toList = bytes.map fun b => Char.ofNat b.toNat := by
  rw [fromUtf8Lossy, String.toList_ofList] at h ⊢
  exact decode_ascii (Nat.le_refl _) h

section Encoding
variable {c : Char} {text : String}

theorem toUTF8_eq (text : String) : text.toUTF8.data.toList = text.toList.flatMap String.utf8EncodeChar := by
  rw [String.toUTF8_eq_toByteArray, ← String.utf8Encode_toList, List.utf8Encode, List.toList_data_toByteArray]

theorem utf8EncodeChar_ascii (h : c.toNat < 128) : String.utf8EncodeChar c = [UInt8.ofNat c.toNat] := by
  rw [String.utf8EncodeChar]
  exact if_pos (Nat.le_of_lt_succ h)

theorem toUTF8_ascii (h : ∀ c ∈ text.toList, c.toNat < 128) : text.toUTF8.data.toList = Ascii.bytes text := by
  rw [toUTF8_eq, Ascii.bytes]
  generalize text.toList = cs at h
  induction cs with
  | nil => rfl
  | cons c cs ih =>
    rw [List.forall_mem_cons] at h
    rw [List.flatMap_cons, utf8EncodeChar_ascii h.1, ih h.2, List.map_cons, List.singleton_append]

/-- No byte of a longer sequence is below 0x80. -/
theorem utf8EncodeChar_high (h : 128 ≤ c.toNat) : ∀ b ∈ String.utf8EncodeChar c, 128 ≤ b.toNat := by
  have hlong : ¬ c.val.toNat ≤ 127 := Nat.not_le_of_lt h
  have hbyte {n : Nat} (hlo : 128 ≤ n) (hhi : n < 256) : 128 ≤ (UInt8.ofNat n).toNat := by
    rw [UInt8.toNat_ofNat']
    omega
  rw [String.utf8EncodeChar, if_neg hlong]
  intro b hb
  split at hb
  · simp only [List.mem_cons, List.not_mem_nil, or_false] at hb
    rcases hb with rfl | rfl
    all_goals exact hbyte (by omega) (by omega)
  · split at hb
    · simp only [List.mem_cons, List.not_mem_nil, or_false] at hb
      rcases hb with rfl | rfl | rfl
      all_goals exact hbyte (by omega) (by omega)
    · simp only [List.mem_cons, List.not_mem_nil, or_false] at hb
      rcases hb with rfl | rfl | rfl | rfl
      all_goals exact hbyte (by omega) (by omega)

def follow (v : Nat) : UInt8 := UInt8.ofNat (v % 64 + 128)

private theorem toNat_byte {n : Nat} (h : n < 256) : (UInt8.ofNat n).toNat = n := by
  rw [UInt8.toNat_ofNat', Nat.mod_eq_of_lt h]

private theorem toNat_follow (v : Nat) : (follow v).toNat = v % 64 + 128 := toNat_byte (by omega)

private theorem tail_follow (code n v : Nat) (rest : List UInt8) :
    tail code (n + 1) (follow v :: rest) = tail (code * 64 + v % 64) n rest := by
  have hcontinues : isContinuation (follow v) := by
    simp only [isContinuation, UInt8.le_iff_toNat_le, toNat_follow, UInt8.reduceToNat, decide_eq_true_eq]
    omega
  have hshift : shift code (follow v) = code * 64 + v % 64 := by
    rw [shift, toNat_follow]
    omega
  rw [tail, if_pos hcontinues, hshift]

private theorem next_two {v : Nat} (hlo : 0x80 ≤ v) (hhi : v < 0x800) (rest : List UInt8) :
    next (UInt8.ofNat (v / 64 % 32 + 0xC0)) (follow v :: rest) = (some (Char.ofNat v), rest) := by
  have hlead := toNat_byte (n := v / 64 % 32 + 0xC0) (by omega)
  rw [next.eq_def, if_neg, if_pos, tail_follow, tail, hlead]
  · congr 3
    omega
  all_goals
    simp only [UInt8.le_iff_toNat_le, UInt8.lt_iff_toNat_lt, hlead, UInt8.reduceToNat]
    omega

private theorem next_three {v : Nat} (hlo : 0x800 ≤ v) (hhi : v < 0x10000) (hv : v.isValidChar) (rest : List UInt8) :
    next (UInt8.ofNat (v / 4096 % 16 + 0xE0)) (follow (v / 64) :: follow v :: rest) = (some (Char.ofNat v), rest) := by
  have hlead := toNat_byte (n := v / 4096 % 16 + 0xE0) (by omega)
  -- surrogates are no characters, so the lead 0xED is followed by what it may be
  have hsecond : secondOfThree (UInt8.ofNat (v / 4096 % 16 + 0xE0)) (follow (v / 64)) := by
    rw [Nat.isValidChar] at hv
    simp only [secondOfThree, isContinuation, UInt8.le_iff_toNat_le, ← UInt8.toNat_inj, hlead, toNat_follow, UInt8.reduceToNat]
    split
    · simp only [decide_eq_true_eq]
      omega
    · split
      all_goals
        simp only [decide_eq_true_eq]
        omega
  rw [next.eq_def, if_neg, if_neg]
  · dsimp only
    rw [if_pos, tail_follow, tail, shift, toNat_follow, hlead]
    · congr 3
      omega
    · refine ⟨?_, ?_, hsecond⟩
      all_goals
        simp only [UInt8.le_iff_toNat_le, hlead, UInt8.reduceToNat]
        omega
  all_goals
    simp only [UInt8.le_iff_toNat_le, UInt8.lt_iff_toNat_lt, hlead, UInt8.reduceToNat]
    omega

private theorem next_four {v : Nat} (hlo : 0x10000 ≤ v) (hhi : v < 0x110000) (rest : List UInt8) :
    next (UInt8.ofNat (v / 262144 % 8 + 0xF0)) (follow (v / 4096) :: follow (v / 64) :: follow v :: rest) =
      (some (Char.ofNat v), rest) := by
  have hlead := toNat_byte (n := v / 262144 % 8 + 0xF0) (by omega)
  have hsecond : secondOfFour (UInt8.ofNat (v / 262144 % 8 + 0xF0)) (follow (v / 4096)) := by
    simp only [secondOfFour, isContinuation, UInt8.le_iff_toNat_le, ← UInt8.toNat_inj, hlead, toNat_follow, UInt8.reduceToNat]
    split
    · simp only [decide_eq_true_eq]
      omega
    · split
      all_goals
        simp only [decide_eq_true_eq]
        omega
  rw [next.eq_def, if_neg, if_neg]
  · dsimp only
    rw [if_neg, if_pos, tail_follow, tail_follow, tail, shift, toNat_follow, hlead]
    · congr 3
      omega
    · refine ⟨?_, ?_, hsecond⟩
      all_goals
        simp only [UInt8.le_iff_toNat_le, hlead, UInt8.reduceToNat]
        omega
    · simp only [UInt8.le_iff_toNat_le, hlead, UInt8.reduceToNat]
      omega
  all_goals
    simp only [UInt8.le_iff_toNat_le, UInt8.lt_iff_toNat_lt, hlead, UInt8.reduceToNat]
    omega

/-- The bytes of a character spell it, whatever comes after them. -/
theorem next_utf8EncodeChar (c : Char) : ∃ lead more, String.utf8EncodeChar c = lead :: more ∧
    ∀ rest, next lead (more ++ rest) = (some c, rest) := by
  have hv : c.toNat.isValidChar := c.valid
  have hbound : c.toNat < 0x110000 := by
    rw [Nat.isValidChar] at hv
    omega
  have hc := Char.ofNat_toNat c
  change c.val.toNat.isValidChar at hv
  change c.val.toNat < _ at hbound
  change Char.ofNat c.val.toNat = c at hc
  rw [String.utf8EncodeChar]
  generalize c.val.toNat = v at hv hbound hc
  subst hc
  split
  · refine ⟨_, [], rfl, fun rest => ?_⟩
    have hlead := toNat_byte (n := v) (by omega)
    rw [next.eq_def, if_pos, hlead]
    · rfl
    · simp only [UInt8.lt_iff_toNat_lt, hlead, UInt8.reduceToNat]
      omega
  · split
    · exact ⟨_, [follow v], rfl, next_two (by omega) (by omega)⟩
    · split
      · exact ⟨_, [follow (v / 64), follow v], rfl, next_three (by omega) (by omega) hv⟩
      · exact ⟨_, [follow (v / 4096), follow (v / 64), follow v], rfl, next_four (by omega) hbound⟩

/-- A text whose bytes are all below 0x80 has ASCII characters only. -/
theorem ascii_of_toUTF8 (h : ∀ b ∈ text.toUTF8.data.toList, b.toNat < 128) : ∀ c ∈ text.toList, c.toNat < 128 := by
  intro c hc
  by_contra hlt
  obtain ⟨lead, more, hencode, -⟩ := next_utf8EncodeChar c
  have hlead : lead ∈ String.utf8EncodeChar c := by
    rw [hencode]
    exact List.mem_cons_self
  have hmem : lead ∈ text.toUTF8.data.toList := by
    rw [toUTF8_eq]
    exact List.mem_flatMap.mpr ⟨c, hc, hlead⟩
  exact absurd (h lead hmem) (Nat.not_lt.mpr (utf8EncodeChar_high (Nat.le_of_not_lt hlt) lead hlead))

private theorem decode_flatMap {n : Nat} {cs : List Char} (hn : (cs.flatMap String.utf8EncodeChar).length ≤ n) :
    decode n (cs.flatMap String.utf8EncodeChar) = cs.map some := by
  induction cs generalizing n with
  | nil => cases n <;> rfl
  | cons c cs ih =>
    obtain ⟨lead, more, hencode, hnext⟩ := next_utf8EncodeChar c
    rw [List.flatMap_cons, hencode, List.cons_append] at hn ⊢
    rw [List.length_cons, List.length_append] at hn
    cases n with
    | zero => omega
    | succ n => rw [decode, hnext, List.map_cons, ih (by omega)]

/-- The bytes of every text are read as this text. -/
theorem fromUtf8_toUTF8 (text : String) : fromUtf8 text.toUTF8.data.toList = some text := by
  rw [fromUtf8, toUTF8_eq, decode_flatMap (Nat.le_refl _), List.mapM_map]
  have hall : text.toList.mapM (id ∘ some) = some (text.toList.map id) := List.mapM_pure
  rw [hall, List.map_id, Option.map_some, String.ofList_toList]

end Encoding

/-- Bytes whose lossy text is an ASCII keyword in upper case are that keyword, in
any case: an ill-formed sequence never reads as ASCII. -/
theorem eqIgnoreCase_of_toUppercase {bytes : List UInt8} {keyword : String} (hk : ∀ c ∈ keyword.toList, c.toNat < 128)
    (h : Ascii.toUppercase (fromUtf8Lossy bytes) = keyword) : Ascii.eqIgnoreCase bytes (Ascii.bytes keyword) := by
  subst h
  rw [Ascii.toUppercase, String.toList_ofList, List.forall_mem_map] at hk
  have htext := fromUtf8Lossy_ascii fun c hc => Ascii.toUpper_ascii (hk c hc)
  rw [htext, List.forall_mem_map] at hk
  rw [Ascii.eqIgnoreCase, decide_eq_true_eq, Ascii.toLowercase, Ascii.toLowercase, Ascii.bytes, Ascii.toUppercase,
    String.toList_ofList, htext, List.map_map, List.map_map, List.map_map]
  apply List.map_congr_left
  intro b hb
  have hlt : b.toNat < 128 := by
    have hascii := Ascii.toUpper_ascii (hk b hb)
    rwa [toNat_ofNat (Or.inl (by have := b.toNat_lt; omega))] at hascii
  have hlower := Ascii.lowerByte_toUpper b.toNat hlt
  rw [UInt8.ofNat_toNat] at hlower
  exact hlower.symm

end Srh.Lib.Utf8
