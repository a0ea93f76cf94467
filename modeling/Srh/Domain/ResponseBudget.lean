import Srh.Domain.Convert
import Srh.Lib.Budget
import Srh.Lib.JsonSize
import Srh.Lib.Tally

/-! What the response budget charges: a fixed price for every node of a reply and
the length of every string that its rendering writes. -/
namespace Srh.Domain.Convert
open Srh.Lib

mutual

def depth : RespValue → Nat
  | .simple _ => 1
  | .bulk _ => 1
  | .int _ => 1
  | .nil => 1
  | .array values => depthItems values + 1

def depthItems : List RespValue → Nat
  | [] => 0
  | value :: values => max (depth value) (depthItems values)

end

mutual

def nodes : RespValue → Nat
  | .simple _ => 1
  | .bulk _ => 1
  | .int _ => 1
  | .nil => 1
  | .array values => nodesItems values + 1

def nodesItems : List RespValue → Nat
  | [] => 0
  | value :: values => nodes value + nodesItems values

end

mutual

/-- The strings that the serializer is handed for a JSON value, in order. -/
def strings : Json → List String
  | .null => []
  | .bool _ => []
  | .number _ => []
  | .string value => [value]
  | .array items => stringsItems items
  | .object members => stringsMembers members

def stringsItems : List Json → List String
  | [] => []
  | item :: items => strings item ++ stringsItems items

def stringsMembers : List (String × Json) → List String
  | [] => []
  | (_, value) :: members => strings value ++ stringsMembers members

end

def textLength (texts : List String) : Nat := (texts.map fun text => (utf8Bytes text).length).sum

def cost (encoding : Encoding) (value : RespValue) : Nat :=
  nodeCost * nodes value + textLength (strings (responseJson encoding value))

def chargeAll (encoding : Encoding) (values : List RespValue) (budget : Nat) : Except ConversionError Nat :=
  values.foldlM (fun budget value => chargeResponseBudget value encoding budget) budget

private theorem textLength_append (a b : List String) : textLength (a ++ b) = textLength a + textLength b := by
  rw [textLength, List.map_append, List.sum_append, textLength, textLength]

theorem textLength_singleton (text : String) : textLength [text] = (utf8Bytes text).length := by
  rw [textLength, List.map_singleton, List.sum_singleton]

private theorem cost_items (encoding : Encoding) (values : List RespValue) :
    nodeCost * nodesItems values + textLength (stringsItems (responseItems encoding values)) =
      (values.map (cost encoding)).sum := by
  induction values with
  | nil => rfl
  | cons value values ih =>
    rw [nodesItems, responseItems, stringsItems, textLength_append, List.map_cons, List.sum_cons, ← ih, cost, Nat.mul_add]
    omega

theorem cost_array (encoding : Encoding) (values : List RespValue) :
    cost encoding (.array values) = nodeCost + (values.map (cost encoding)).sum := by
  rw [cost, nodes, responseJson, strings, ← cost_items, Nat.mul_add]
  omega

section Base64

theorem length_utf8Bytes (text : String) : (utf8Bytes text).length = text.utf8ByteSize := by
  rw [utf8Bytes, String.toUTF8, Array.length_toList]
  rfl

private theorem length_encode (bytes : Bytes) : (utf8Bytes (Base64.encode bytes)).length = (bytes.length + 2) / 3 * 4 := by
  rw [length_utf8Bytes, Base64.encode, String.utf8ByteSize_ofList, utf8Len_ascii (Base64.encodeChars_ascii bytes),
    Base64.length_encodeChars]

/-- Where the encoded length does not fit a machine word, no budget pays for it. -/
theorem spends_base64 (inputLen : Nat) :
    Spends .responseTooLarge (2 ^ 64) (fun budget => base64EncodedLen inputLen >>= charge budget) True
      ((inputLen + 2) / 3 * 4) := by
  constructor
  · intro budget hb _
    rw [base64EncodedLen]
    by_cases h1 : inputLen + 2 < 2 ^ 64
    · by_cases h2 : (inputLen + 2) / 3 * 4 < 2 ^ 64
      · simp only [checked, if_pos h1, Option.bind_some, if_pos h2]
        rfl
      · simp only [checked, if_pos h1, Option.bind_some, if_neg h2]
        rw [spend, if_neg (by omega)]
        rfl
    · simp only [checked, if_neg h1, Option.bind_none]
      rw [spend, if_neg (by omega)]
      rfl
  · exact fun _ _ h => absurd trivial h

end Base64

private theorem spends_charge (amount : Nat) :
    Spends .responseTooLarge (2 ^ 64) (fun budget => charge budget amount) True amount :=
  ⟨fun _ _ _ => rfl, fun _ _ h => absurd trivial h⟩

/-- What is charged for the contents of a reply, its node apart. -/
def chargeContents (encoding : Encoding) (depthRemaining : Nat) : RespValue → Nat → Except ConversionError Nat
  | .simple value =>
    if encoding = .base64 ∧ value ≠ "OK" then fun budget => base64EncodedLen (utf8Bytes value).length >>= charge budget
    else fun budget => charge budget (utf8Bytes value).length
  | .bulk value =>
    if encoding = .base64 then fun budget => base64EncodedLen value.length >>= charge budget
    else fun budget => charge budget (utf8Bytes (Utf8.fromUtf8Lossy value)).length
  | .int _ => .ok
  | .nil => .ok
  | .array values => fun budget =>
    values.foldlM (fun budget value => chargeWithinDepth encoding depthRemaining value budget) budget

private theorem chargeWithinDepth_succ (encoding : Encoding) (depthRemaining : Nat) (value : RespValue) :
    chargeWithinDepth encoding (depthRemaining + 1) value =
      fun budget => charge budget nodeCost >>= chargeContents encoding depthRemaining value := by
  funext budget
  cases value with
  | simple value =>
    simp only [chargeWithinDepth, chargeContents]
    split <;> rfl
  | bulk value =>
    simp only [chargeWithinDepth, chargeContents]
    split <;> rfl
  | int value => rfl
  | nil => rfl
  | array values => rfl

/-- A scalar is charged for the one string it is rendered as, if any. -/
theorem chargeContents_scalar (encoding : Encoding) (depthRemaining : Nat) {value : RespValue} (h : ∀ values, value ≠ .array values) :
    Spends .responseTooLarge (2 ^ 64) (chargeContents encoding depthRemaining value) True
      (textLength (strings (responseJson encoding value))) := by
  cases value with
  | simple value =>
    simp only [chargeContents, responseJson]
    split
    · rw [strings, textLength_singleton, length_encode]
      exact spends_base64 _
    · rw [strings, textLength_singleton]
      exact spends_charge _
  | bulk value =>
    simp only [chargeContents, responseJson]
    split
    · rw [strings, textLength_singleton, length_encode]
      exact spends_base64 _
    · rw [strings, textLength_singleton]
      exact spends_charge _
  | int value => exact spends_ok
  | nil => exact spends_ok
  | array values => exact absurd rfl (h values)

theorem chargeWithinDepth_spends (encoding : Encoding) (depthRemaining : Nat) (value : RespValue) :
    Spends .responseTooLarge (2 ^ 64) (chargeWithinDepth encoding depthRemaining value) (depth value ≤ depthRemaining)
      (cost encoding value) := by
  induction depthRemaining generalizing value with
  | zero =>
    have hd : ¬ depth value ≤ 0 := by cases value <;> simp [depth]
    exact ⟨fun _ _ h => absurd h hd, fun _ _ _ => rfl⟩
  | succ depthRemaining ih =>
    rw [chargeWithinDepth_succ]
    have hnode := spends_charge nodeCost
    have hscalar : (∀ values, value ≠ .array values) → depth value = 1 → nodes value = 1 →
        Spends .responseTooLarge (2 ^ 64)
          (fun budget => charge budget nodeCost >>= chargeContents encoding depthRemaining value)
          (depth value ≤ depthRemaining + 1) (cost encoding value) := by
      intro hv hd hn
      refine (hnode.andThen (chargeContents_scalar encoding depthRemaining hv)).congr ?_ ?_
      · rw [hd]
        simp
      · rw [cost, hn, Nat.mul_one]
    cases value with
    | simple value => exact hscalar nofun rfl rfl
    | bulk value => exact hscalar nofun rfl rfl
    | int value => exact hscalar nofun rfl rfl
    | nil => exact hscalar nofun rfl rfl
    | array values =>
      refine (hnode.andThen (Spends.foldlM fun value _ => ih value)).congr ?_ (cost_array encoding values).symm
      rw [depth, Nat.add_le_add_iff_right, greatest_le rfl (fun _ _ => depthItems.eq_2 ..) values, true_and]

def TooLarge (e : ConversionError) : Prop := e = .responseTooLarge

private theorem charge_fails (budget amount : Nat) : Fails TooLarge (charge budget amount) := by
  intro e he
  rw [charge] at he
  split at he
  · cases he
  · exact (Except.error.inj he).symm

private theorem base64EncodedLen_fails (inputLen : Nat) : Fails TooLarge (base64EncodedLen inputLen) := by
  intro e he
  rw [base64EncodedLen] at he
  split at he
  · cases he
  · exact (Except.error.inj he).symm

theorem chargeWithinDepth_fails (encoding : Encoding) (depthRemaining : Nat) (value : RespValue) (budget : Nat) :
    Fails TooLarge (chargeWithinDepth encoding depthRemaining value budget) := by
  induction depthRemaining generalizing value budget with
  | zero => exact fun e he => (Except.error.inj he).symm
  | succ depthRemaining ih =>
    rw [chargeWithinDepth_succ]
    refine Fails.bind (charge_fails budget nodeCost) fun rest => ?_
    cases value with
    | simple value =>
      rw [chargeContents]
      split
      · exact Fails.bind (base64EncodedLen_fails _) fun length => charge_fails rest length
      · exact charge_fails rest _
    | bulk value =>
      rw [chargeContents]
      split
      · exact Fails.bind (base64EncodedLen_fails _) fun length => charge_fails rest length
      · exact charge_fails rest _
    | int value => exact fun e he => by cases he
    | nil => exact fun e he => by cases he
    | array values => exact Fails.foldlM (fun budget value _ => ih value budget) rest

private theorem chargeAll_spends (encoding : Encoding) (values : List RespValue) :
    Spends .responseTooLarge (2 ^ 64) (chargeAll encoding values) (∀ value ∈ values, depth value ≤ maxDepth)
      (values.map (cost encoding)).sum :=
  Spends.foldlM fun value _ => chargeWithinDepth_spends encoding maxDepth value

/-- The budget charges exactly what is rendered: a reply passes when its nesting and
its cost do, what is left is the exact difference, and several replies on one budget
pass or fail together by the sum of their costs, in whichever order they come. -/
theorem budget_charges_rendering (encoding : Encoding) (budget : Nat) (hb : budget < 2 ^ 64) :
    (∀ value, (∃ rest, chargeResponseBudget value encoding budget = .ok rest) ↔
      depth value ≤ maxDepth ∧ cost encoding value ≤ budget) ∧
    (∀ value rest, chargeResponseBudget value encoding budget = .ok rest → rest = budget - cost encoding value) ∧
    (∀ values, (∃ rest, chargeAll encoding values budget = .ok rest) ↔
      (∀ value ∈ values, depth value ≤ maxDepth) ∧ (values.map (cost encoding)).sum ≤ budget) ∧
    ∀ values values', values.Perm values' → chargeAll encoding values budget = chargeAll encoding values' budget := by
  have hexists : ∀ {f : Nat → Except ConversionError Nat} {p : Prop} {m : Nat}, Spends .responseTooLarge (2 ^ 64) f p m →
      ((∃ rest, f budget = .ok rest) ↔ p ∧ m ≤ budget) := by
    intro f p m h
    simp only [h.eq_ok hb, exists_and_left]
    constructor
    · rintro ⟨hp, rest, hr⟩
      exact ⟨hp, by omega⟩
    · rintro ⟨hp, hm⟩
      exact ⟨hp, budget - m, by omega⟩
  refine ⟨?_, ?_, ?_, ?_⟩
  · exact fun value => hexists (chargeWithinDepth_spends encoding maxDepth value)
  · intro value rest h
    have := ((chargeWithinDepth_spends encoding maxDepth value).eq_ok hb).mp h
    omega
  · exact fun values => hexists (chargeAll_spends encoding values)
  · intro values values' hp
    refine (chargeAll_spends encoding values).unique (chargeAll_spends encoding values') ?_ ?_ hb
    · simp only [hp.mem_iff]
    · exact (hp.map _).sum_nat

/-- Two nodes and a byte that is no UTF-8, which is written as three. -/
theorem budget_charges_rendering_lossy :
    19 < 2 ^ 64 ∧ ∃ rest, chargeResponseBudget (.array [.bulk [0xFF]]) .none 19 = .ok rest :=
  ⟨by decide, ((budget_charges_rendering .none 19 (by decide)).1 _).mpr ⟨by decide, by decide⟩⟩

end Srh.Domain.Convert
