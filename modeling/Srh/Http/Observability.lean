import Srh.Http.Handlers
import Srh.Lib.Utf8

/-! The completion event and the metric labels of http/observability.rs. -/
namespace Srh.Http
open Srh.Lib Srh.Domain

def commandLabelCapacity : Nat := 32

def upperByte (b : UInt8) : UInt8 := if 97 ≤ b ∧ b ≤ 122 then b - 32 else b

/-- An upper-cased command name, cut at the capacity. -/
structure CommandLabel where
  bytes : Bytes
  length_le : bytes.length ≤ commandLabelCapacity
  deriving DecidableEq

namespace CommandLabel

def uppercase (command : String) : CommandLabel where
  bytes := ((Convert.utf8Bytes command).take commandLabelCapacity).map upperByte
  length_le := by
    rw [List.length_map]
    exact List.length_take_le _ _

/-- A label that is cut inside a character has no text. -/
def asStr (label : CommandLabel) : String := (Utf8.fromUtf8 label.bytes).getD "-"

private theorem upperByte_ascii : ∀ n < 128, [upperByte (UInt8.ofNat n)] = [UInt8.ofNat (Char.ofNat n).toUpper.toNat] ∧
    (Char.ofNat n).toUpper.toNat < 128 := by
  decide

private theorem upperByte_high {b : UInt8} (h : 128 ≤ b.toNat) : upperByte b = b := by
  apply if_neg
  simp only [UInt8.le_iff_toNat_le, UInt8.reduceToNat]
  omega

/-- To write the bytes of a character in upper case is to write the character so: no byte
of a longer sequence is a letter. -/
private theorem map_upperByte_char (c : Char) : (String.utf8EncodeChar c).map upperByte = String.utf8EncodeChar c.toUpper := by
  by_cases hc : c.toNat < 128
  · obtain ⟨hbyte, hupper⟩ := upperByte_ascii c.toNat hc
    rw [Char.ofNat_toNat] at hbyte hupper
    rw [Utf8.utf8EncodeChar_ascii hc, Utf8.utf8EncodeChar_ascii hupper]
    exact hbyte
  · have hsame : c.toUpper = c := by
      apply dif_neg
      rintro ⟨-, hz⟩
      exact hc (Nat.lt_of_le_of_lt (UInt32.le_iff_toNat_le.mp hz) (by decide))
    rw [hsame]
    conv_rhs => rw [← List.map_id (String.utf8EncodeChar c)]
    exact List.map_congr_left fun b hb => upperByte_high (Utf8.utf8EncodeChar_high (Nat.le_of_not_lt hc) b hb)

private theorem map_upperByte (command : String) :
    (Convert.utf8Bytes command).map upperByte = Convert.utf8Bytes (Ascii.toUppercase command) := by
  rw [Convert.utf8Bytes, Convert.utf8Bytes, Utf8.toUTF8_eq, Utf8.toUTF8_eq, Ascii.toUppercase, String.toList_ofList,
    List.map_flatMap, List.flatMap_map]
  exact List.flatMap_congr fun c _ => map_upperByte_char c

/-- A name that fits is shown in full. -/
theorem asStr_uppercase {command : String} (h : (Convert.utf8Bytes command).length ≤ commandLabelCapacity) :
    (uppercase command).asStr = Ascii.toUppercase command := by
  change (Utf8.fromUtf8 (((Convert.utf8Bytes command).take commandLabelCapacity).map upperByte)).getD "-" = _
  rw [List.take_of_length_le h, map_upperByte, Convert.utf8Bytes, Utf8.fromUtf8_toUTF8, Option.getD_some]

end CommandLabel

structure Audit where
  identity : Option Identity
  command : Option CommandLabel
  pipelineLen : Nat

namespace Audit

def default : Audit := ⟨none, none, 0⟩

def setIdentity (audit : Audit) (identity : Identity) : Audit := { audit with identity := some identity }

def setCommand (audit : Audit) (command : Option String) (pipelineLen : Nat) : Audit :=
  { audit with command := command.map .uppercase, pipelineLen := pipelineLen }

end Audit

structure AuditLine where
  subject : String
  pool : String
  command : String
  status : Nat
  pipelineLen : Nat
  endpoint : String
  deriving DecidableEq, Repr

def statusLabel : Nat → String
  | 200 => "200"
  | 400 => "400"
  | 401 => "401"
  | 403 => "403"
  | 404 => "404"
  | 405 => "405"
  | 408 => "408"
  | 413 => "413"
  | 429 => "429"
  | 500 => "500"
  | 502 => "502"
  | 503 => "503"
  | _ => "other"

def isProbe (endpoint : String) : Bool := endpoint = "/health" ∨ endpoint = "/ready"

def endpointLabel : String → String
  | "/" => "/"
  | "/pipeline" => "/pipeline"
  | "/multi-exec" => "/multi-exec"
  | "/health" => "/health"
  | "/ready" => "/ready"
  | _ => "other"

/-- The line of a completed request; a probe that succeeds has none. -/
def record (endpoint : String) (audit : Audit) (status : Nat) : Option AuditLine :=
  if isProbe endpoint ∧ 200 ≤ status ∧ status < 300 then none
  else some {
    subject := audit.identity.elim "-" Identity.subject
    pool := audit.identity.elim "-" Identity.pool
    command := audit.command.elim "-" CommandLabel.asStr
    status := status
    pipelineLen := audit.pipelineLen
    endpoint := endpoint }

end Srh.Http
