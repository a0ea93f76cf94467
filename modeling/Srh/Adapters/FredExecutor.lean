import Srh.Lib.Utf8
import Srh.Domain.Convert
import Srh.Ports

/-! The Redis executor of adapters/fred_executor.rs. An operation is a tree of
the waits it performs on the client: what it does next depends on the answer. -/
namespace Srh.Adapters.FredExecutor
open Srh.Lib Srh.Domain Srh.Ports

/-- A decoded reply. The payloads of frames that RESP2 does not have are left out. -/
inductive Resp3Frame where
  | simpleString (data : Bytes)
  | blobString (data : Bytes)
  | number (data : Int)
  | null
  | array (data : List Resp3Frame)
  | simpleError (data : String)
  | blobError (data : Bytes)
  | boolean
  | double
  | bigNumber
  | verbatimString
  | map
  | set
  | push
  | hello
  | chunkedString

structure FredError where
  timeout : Bool
  details : String
  text : String
  deriving DecidableEq, Repr

def protocolViolation (message : String) : ExecError := .transport s!"Redis protocol violation: {message}"

def frameWithinDepth : Nat → Resp3Frame → CommandResult
  | 0, _ => .error .responseTooLarge
  | depthRemaining + 1, frame =>
    match frame with
    | .simpleString data =>
      match Utf8.fromUtf8 data with
      | some value => .ok (.simple value)
      | none => .error (protocolViolation "non-UTF-8 RESP2 simple string")
    | .blobString data => .ok (.bulk data)
    | .number data => .ok (.int data)
    | .null => .ok .nil
    | .array data => (data.mapM (frameWithinDepth depthRemaining)).map .array
    | .simpleError data => .error (.redis data)
    | .blobError data => .error (.redis (Utf8.fromUtf8Lossy data))
    | .boolean => .error (protocolViolation "unexpected RESP3 boolean")
    | .double => .error (protocolViolation "unexpected RESP3 double")
    | .bigNumber => .error (protocolViolation "unexpected RESP3 big number")
    | .verbatimString => .error (protocolViolation "unexpected RESP3 verbatim string")
    | .map => .error (protocolViolation "unexpected RESP3 map")
    | .set => .error (protocolViolation "unexpected RESP3 set")
    | .push => .error (protocolViolation "unexpected RESP3 push")
    | .hello => .error (protocolViolation "unexpected RESP3 hello")
    | .chunkedString => .error (protocolViolation "unexpected RESP3 chunked string")

def fredFrameToResp (frame : Resp3Frame) : CommandResult := frameWithinDepth Convert.maxDepth frame

def isWhitespace (c : Char) : Bool :=
  let n := c.toNat
  (0x9 ≤ n ∧ n ≤ 0xD) ∨ n = 0x20 ∨ n = 0x85 ∨ n = 0xA0 ∨ n = 0x1680 ∨ (0x2000 ≤ n ∧ n ≤ 0x200A) ∨ n = 0x2028 ∨
    n = 0x2029 ∨ n = 0x202F ∨ n = 0x205F ∨ n = 0x3000

/-- The details start with a word of upper-case letters, digits and underscores. -/
def isRedisError (details : String) : Bool :=
  let word := (details.toList.dropWhile isWhitespace).takeWhile fun c => !isWhitespace c
  !word.isEmpty && word.all fun c => c.isUpper || c.isDigit || c = '_'

def mapFredError (error : FredError) : ExecError :=
  if isRedisError error.details then .redis error.details
  else if error.timeout then .timeout
  else .transport error.text

/-- What an operation does: wait for the answer to a command, ask whether a
timed-out connection is to be reset (it is connected, and this executor has not
reset it yet), wait for the reset, or return. -/
inductive Proc (ρ : Type) where
  | done (result : ρ)
  | raw (command : RedisCommand) (next : Except FredError Resp3Frame → Proc ρ)
  | mustReset (next : Bool → Proc ρ)
  | reset (next : Proc ρ)

section Operations
variable {ρ : Type}

def mapError (error : FredError) (next : ExecError → Proc ρ) : Proc ρ :=
  if mapFredError error = .timeout then
    .mustReset fun must => if must then .reset (next .timeout) else next .timeout
  else next (mapFredError error)

def answered (next : Except ExecError Resp3Frame → Proc ρ) : Except FredError Resp3Frame → Proc ρ
  | .ok frame => next (.ok frame)
  | .error error => mapError error fun mapped => next (.error mapped)

/-- FredExecutor::raw. -/
def call (command : RedisCommand) (next : Except ExecError Resp3Frame → Proc ρ) : Proc ρ :=
  .raw command (answered next)

def executeUnlocked (command : RedisCommand) : Proc CommandResult :=
  call command fun reply => .done (reply.bind fredFrameToResp)

def control (name : String) : RedisCommand := ⟨name, []⟩

variable (debug : RespValue → String)

/-- Queues the commands one after another and executes the transaction; the first
that is not queued discards it. -/
def queue : List RedisCommand → Proc BatchResult
  | [] => call (control "EXEC") fun
    | .error error => .done (.error error)
    | .ok (.array data) => .done (.ok (data.map (frameWithinDepth Convert.maxDepth)))
    | .ok .null => .done (.error (.redis "EXECABORT Transaction discarded because of previous errors."))
    | .ok frame =>
      match fredFrameToResp frame with
      | .error error => .done (.error error)
      | .ok _ => .done (.error (protocolViolation "EXEC returned a non-array response"))
  | command :: commands => call command fun reply =>
    match reply.bind fredFrameToResp with
    | .ok (.simple "QUEUED") => queue commands
    | .ok response =>
      call (control "DISCARD") fun _ =>
        .done (.error (protocolViolation
          ("transaction command returned " ++ debug response ++ " instead of QUEUED")))
    | .error error => call (control "DISCARD") fun _ => .done (.error error)

def transaction (commands : List RedisCommand) : Proc BatchResult :=
  if commands = [] then .done (.ok [])
  else call (control "MULTI") fun reply =>
    match reply.bind fredFrameToResp with
    | .error error => .done (.error error)
    | .ok (.simple "OK") => queue debug commands
    | .ok response => .done (.error (protocolViolation ("MULTI returned " ++ debug response)))

end Operations

inductive Outcome where
  | single (result : CommandResult)
  | batch (result : BatchResult)

def Proc.map {ρ σ : Type} (f : ρ → σ) : Proc ρ → Proc σ
  | .done result => .done (f result)
  | .raw command next => .raw command fun answer => (next answer).map f
  | .mustReset next => .mustReset fun must => (next must).map f
  | .reset next => .reset (next.map f)

/-- The futures that the operation polls together. A pipeline joins one for each
command. -/
def branches (debug : RespValue → String) : Operation → List (Proc Outcome)
  | .execute command => [(executeUnlocked command).map .single]
  | .pipeline commands => commands.map fun command => (executeUnlocked command).map .single
  | .transaction commands => [(transaction debug commands).map .batch]

/-- Only an empty transaction returns without taking the operation lock. -/
def takesLock : Operation → Bool
  | .transaction commands => !commands.isEmpty
  | _ => true

end Srh.Adapters.FredExecutor
