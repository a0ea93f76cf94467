import Mathlib
import Srh.Domain.Convert

/-! The base64 rendering read back by a client. That the digits of an integer are read
back is Int.toInt?_repr, which no part of Mathlib imports short of the whole. -/
namespace Srh.Domain.Convert
open Srh.Lib

mutual

/-- A client that asked for base64: the string OK stands for itself, every other
string is base64. A reply has no other JSON. -/
def clientDecode : Json → Option RespValue
  | .null => some .nil
  | .number text => text.toInt?.map .int
  | .string "OK" => some (.bulk (Ascii.bytes "OK"))
  | .string text => (Base64.decode text).map .bulk
  | .array items => (clientDecodeItems items).map .array
  | .bool _ => none
  | .object _ => none

def clientDecodeItems : List Json → Option (List RespValue)
  | [] => some []
  | item :: items => do
    let value ← clientDecode item
    let values ← clientDecodeItems items
    some (value :: values)

end

mutual

/-- The reply with every simple string in bulk framing. -/
def bulked : RespValue → RespValue
  | .simple value => .bulk (utf8Bytes value)
  | .bulk value => .bulk value
  | .int value => .int value
  | .nil => .nil
  | .array values => .array (bulkedItems values)

def bulkedItems : List RespValue → List RespValue
  | [] => []
  | value :: values => bulked value :: bulkedItems values

end

/-- Base64 text comes in groups of four, so none is the exempt string. -/
theorem encode_ne_ok (bytes : Bytes) : Base64.encode bytes ≠ "OK" := by
  intro h
  have hlen := congrArg (fun text => text.toList.length) h
  simp only [Base64.encode, String.toList_ofList, Base64.length_encodeChars] at hlen
  have h2 : "OK".toList.length = 2 := by decide
  omega

private theorem clientDecode_encode (bytes : Bytes) : clientDecode (.string (Base64.encode bytes)) = some (.bulk bytes) := by
  rw [clientDecode]
  · rw [Base64.decode_encode]
    rfl
  · exact encode_ne_ok bytes

mutual

/-- Decoding never fails and gives every byte back, at every depth. -/
theorem clientDecode_responseJson (value : RespValue) :
    clientDecode (responseJson .base64 value) = some (bulked value) := by
  cases value with
  | simple value =>
    rw [responseJson, bulked]
    split
    · exact clientDecode_encode _
    · rename_i h
      have hok : value = "OK" := by simpa using h
      subst hok
      rfl
  | bulk value => exact clientDecode_encode value
  | int value =>
    rw [responseJson, clientDecode, bulked, show toString value = value.repr from rfl, Int.toInt?_repr]
    rfl
  | nil => rfl
  | array values =>
    rw [responseJson, clientDecode, bulked, clientDecodeItems_responseItems values]
    rfl

theorem clientDecodeItems_responseItems (values : List RespValue) :
    clientDecodeItems (responseItems .base64 values) = some (bulkedItems values) := by
  cases values with
  | nil => rfl
  | cons value values =>
    rw [responseItems, clientDecodeItems, clientDecode_responseJson value, clientDecodeItems_responseItems values]
    rfl

end

/-- Base64 mode is lossless: replies with the same rendering differ in framing only. -/
theorem base64_lossless :
    (∀ value, clientDecode (responseJson .base64 value) = some (bulked value)) ∧
    ∀ value value', responseJson .base64 value = responseJson .base64 value' → bulked value = bulked value' := by
  refine ⟨clientDecode_responseJson, ?_⟩
  intro value value' h
  have hd := clientDecode_responseJson value
  rw [h, clientDecode_responseJson value', Option.some.injEq] at hd
  exact hd.symm

end Srh.Domain.Convert
