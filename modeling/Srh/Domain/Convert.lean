import Srh.Lib.Ascii
import Srh.Lib.Base64
import Srh.Lib.Guards
import Srh.Lib.Json
import Srh.Lib.Utf8
import Srh.Ports

/-! The conversions between requests, Redis and responses: domain/compat.rs and
domain/convert.rs. -/
namespace Srh.Domain
open Srh.Lib Srh.Ports

namespace Compat

def units : List Bytes := ["M", "KM", "FT", "MI"].map Ascii.bytes

/-- The unit of a GEODIST is sent in lower case. -/
def normalize (command : RedisCommand) : RedisCommand :=
  match command.name, command.args with
  | "GEODIST", [key, source, target, unit] =>
    if unit ∈ units then ⟨"GEODIST", [key, source, target, Ascii.toLowercase unit]⟩ else command
  | _, _ => command

@[simp] theorem normalize_name (command : RedisCommand) : (normalize command).name = command.name := by
  rw [normalize]
  split
  · split
    · exact Eq.symm ‹_›
    · rfl
  · rfl

end Compat

namespace Convert

def nodeCost : Nat := 8

def maxDepth : Nat := 64

inductive Encoding where
  | none
  | base64
  deriving DecidableEq, Repr

inductive ConversionError where
  | invalidCommand
  | responseTooLarge
  deriving DecidableEq, Repr

def utf8Bytes (text : String) : Bytes := text.toUTF8.data.toList

def jsonValueToBytes : Json → Except ConversionError Bytes
  | .string value => .ok (utf8Bytes value)
  | value => .ok (utf8Bytes value.toText)

theorem jsonValueToBytes_number (text : String) : jsonValueToBytes (.number text) = .ok (utf8Bytes text) := by
  have htext : (Json.number text).toText = text := String.ofList_toList
  change Except.ok (utf8Bytes (Json.number text).toText) = _
  rw [htext]

def base64EncodedLen (inputLen : Nat) : Except ConversionError Nat :=
  match (checked (inputLen + 2)).bind fun length => checked (length / 3 * 4) with
  | some length => .ok length
  | none => .error .responseTooLarge

def charge (budget amount : Nat) : Except ConversionError Nat :=
  if amount ≤ budget then .ok (budget - amount) else .error .responseTooLarge

def chargeWithinDepth (encoding : Encoding) : Nat → RespValue → Nat → Except ConversionError Nat
  | 0, _, _ => .error .responseTooLarge
  | depthRemaining + 1, value, budget => do
    let budget ← charge budget nodeCost
    match value with
    | .simple value =>
      if encoding = .base64 ∧ value ≠ "OK" then
        let length ← base64EncodedLen (utf8Bytes value).length
        charge budget length
      else charge budget (utf8Bytes value).length
    | .bulk value =>
      if encoding = .base64 then
        let length ← base64EncodedLen value.length
        charge budget length
      else charge budget (utf8Bytes (Utf8.fromUtf8Lossy value)).length
    | .int _ => .ok budget
    | .nil => .ok budget
    | .array values => values.foldlM (fun budget value => chargeWithinDepth encoding depthRemaining value budget) budget

def chargeResponseBudget (value : RespValue) (encoding : Encoding) (budget : Nat) : Except ConversionError Nat :=
  chargeWithinDepth encoding maxDepth value budget

mutual

/-- ResponseJson: the JSON of a reply. -/
def responseJson (encoding : Encoding) : RespValue → Json
  | .simple value =>
    if encoding = .base64 ∧ value ≠ "OK" then .string (Base64.encode (utf8Bytes value)) else .string value
  | .bulk value =>
    if encoding = .base64 then .string (Base64.encode value) else .string (Utf8.fromUtf8Lossy value)
  | .int value => .number (toString value)
  | .nil => .null
  | .array values => .array (responseItems encoding values)

def responseItems (encoding : Encoding) : List RespValue → List Json
  | [] => []
  | value :: values => responseJson encoding value :: responseItems encoding values

end

end Convert
end Srh.Domain
