import Srh.Domain.ResponseBudget

/-! How much longer the JSON text of a reply is than what the budget charged for it:
the price of a node pays for brackets, quotes, separators and digits. -/
namespace Srh.Domain.Convert
open Srh.Lib

mutual

/-- Every integer of the reply is a signed 64-bit one, as RespValue::Int holds it. -/
def Int64s : RespValue → Prop
  | .int value => -2 ^ 63 ≤ value ∧ value < 2 ^ 63
  | .array values => Int64sItems values
  | _ => True

def Int64sItems : List RespValue → Prop
  | [] => True
  | value :: values => Int64s value ∧ Int64sItems values

end

/-- A string is charged its own length and the price of its node. -/
theorem size_string_lt (text : String) : Json.size (.string text) < 6 * (nodeCost * 1 + textLength (strings (.string text))) := by
  have h := Json.size_string_le text
  rw [strings, textLength_singleton, length_utf8Bytes, nodeCost]
  omega

mutual

/-- One byte is left over for the comma that may follow. -/
theorem size_responseJson_lt (encoding : Encoding) :
    ∀ value, Int64s value → (responseJson encoding value).size < 6 * cost encoding value
  | .simple value, _ => by
    rw [cost, nodes, responseJson]
    split <;> exact size_string_lt _
  | .bulk value, _ => by
    rw [cost, nodes, responseJson]
    split <;> exact size_string_lt _
  | .int value, h => by
    have hdigits := utf8ByteSize_int_le h.1 h.2
    have hsize : (responseJson encoding (.int value)).size = (toString value).utf8ByteSize := by
      rw [responseJson, ← Json.utf8ByteSize_toText, Json.toText, Json.write_number, String.ofList_toList]
    rw [hsize, cost, nodes, nodeCost]
    omega
  | .nil, _ => by
    have hsize : (responseJson encoding .nil).size = 4 := rfl
    rw [hsize, cost, nodes, nodeCost]
    omega
  | .array values, h => by
    have hitems := size_responseItems_le encoding values h
    have hsize := Json.size_array_le (responseItems encoding values)
    rw [responseJson, cost_array, nodeCost]
    omega

theorem size_responseItems_le (encoding : Encoding) :
    ∀ values, Int64sItems values →
      ((responseItems encoding values).map fun item => item.size + 1).sum ≤ 6 * (values.map (cost encoding)).sum
  | [], _ => Nat.le_refl 0
  | value :: values, h => by
    have hhead := size_responseJson_lt encoding value h.1
    have htail := size_responseItems_le encoding values h.2
    rw [responseItems, List.map_cons, List.sum_cons, List.map_cons, List.sum_cons]
    omega

end

theorem length_toText (value : Json) : (utf8Bytes value.toText).length = value.size := by
  rw [length_utf8Bytes, Json.utf8ByteSize_toText]

theorem size_le_of_charged {encoding : Encoding} {value : RespValue} {budget rest : Nat} (hb : budget < 2 ^ 64)
    (hv : Int64s value) (h : chargeResponseBudget value encoding budget = .ok rest) :
    (responseJson encoding value).size ≤ 6 * (budget - rest) := by
  obtain ⟨-, hsum⟩ := ((chargeWithinDepth_spends encoding maxDepth value).eq_ok hb).mp h
  have hlt := size_responseJson_lt encoding value hv
  omega

end Srh.Domain.Convert
