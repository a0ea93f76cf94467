import Srh.Domain.Convert

/-! The bounded request parser of http/parse.rs. It reads the document as
serde_json presents it, one node after another, so a malformed place counts only
once the parser gets there. -/
namespace Srh.Http.Parse
open Srh.Lib Srh.Domain Srh.Ports

mutual

/-- A JSON value as it is presented. A float carries its number text, if it is
finite. A value that cannot be read may still be one that can be skipped. -/
inductive Node where
  | null
  | bool (value : Bool)
  | integer (value : Int)
  | float (text : Option String)
  | string (value : String)
  | array (items : Items)
  | object (members : Members)
  | bad (skippable : Bool)

/-- The rest of an array: an element, its end, or neither. -/
inductive Items where
  | close
  | broken
  | item (head : Node) (tail : Items)

/-- The rest of an object. A key that is malformed or has no colon is bad. -/
inductive Members where
  | close
  | broken
  | badKey
  | member (key : String) (value : Node) (tail : Members)

end

structure Document where
  root : Node
  trailing : Bool

inductive ParseError where
  | invalid
  | pipelineTooLarge
  | requestTooComplex
  deriving DecidableEq, Repr

inductive LimitExceeded where
  | pipelineCommands
  | requestElements
  deriving DecidableEq, Repr

structure Limits where
  remaining : Nat
  exceeded : Option LimitExceeded
  deriving DecidableEq, Repr

/-- A visitor fails without a value; its text is discarded. -/
abbrev Visitor := EStateM Unit Limits

def fail {α : Type} : Visitor α := throw ()

def charge : Visitor Unit := fun limits =>
  match limits.remaining with
  | 0 => .error () { limits with exceeded := some .requestElements }
  | next + 1 => .ok () { limits with remaining := next }

mutual

def visitValue : Node → Visitor Json
  | .null => pure .null
  | .bool value => pure (.bool value)
  | .integer value => pure (.number (toString value))
  | .float (some text) => pure (.number text)
  | .float none => fail
  | .string value => pure (.string value)
  | .array items => do
    let values ← visitItems items
    pure (.array values)
  | .object members => do
    let values ← visitMembers members []
    pure (.object values)
  | .bad _ => fail

def visitItems : Items → Visitor (List Json)
  | .close => pure []
  | .broken => fail
  | .item head tail => do
    charge
    let value ← visitValue head
    let values ← visitItems tail
    pure (value :: values)

def visitMembers : Members → List (String × Json) → Visitor (List (String × Json))
  | .close, values => pure values
  | .broken, _ => fail
  | .badKey, _ => do
    charge
    fail
  | .member key node tail, values => do
    charge
    charge
    let value ← visitValue node
    visitMembers tail (Json.insert key value values)

end

def nested (value : Json) : Visitor Bytes :=
  match Convert.jsonValueToBytes value with
  | .ok bytes => pure bytes
  | .error _ => fail

/-- ArgumentVisitor: the bytes of a scalar directly, of anything else through its
JSON text. -/
def visitArgument : Node → Visitor Bytes
  | .null => pure (Ascii.bytes "null")
  | .bool value => pure (Ascii.bytes (if value then "true" else "false"))
  | .integer value => pure (Convert.utf8Bytes (toString value))
  | .float (some text) => pure (Convert.utf8Bytes text)
  | .float none => fail
  | .string value => pure (Convert.utf8Bytes value)
  | .array items => do
    let values ← visitItems items
    nested (.array values)
  | .object members => do
    let values ← visitMembers members []
    nested (.object values)
  | .bad _ => fail

def visitArguments : Items → Visitor (List Bytes)
  | .close => pure []
  | .broken => fail
  | .item head tail => do
    charge
    let argument ← visitArgument head
    let arguments ← visitArguments tail
    pure (argument :: arguments)

def visitName (node : Node) : Visitor String := do
  charge
  match node with
  | .string name => pure name
  | _ => fail

/-- CommandSeed: a non-empty array that starts with a string. -/
def visitCommand (node : Node) : Visitor RedisCommand := do
  charge
  match node with
  | .array (.item first rest) =>
    let name ← visitName first
    let args ← visitArguments rest
    pure ⟨name, args⟩
  | _ => fail

mutual

/-- IgnoredAny reads to the end of a value without looking into it. -/
def skippable : Node → Bool
  | .array items => skippableItems items
  | .object members => skippableMembers members
  | .bad skippable => skippable
  | _ => true

def skippableItems : Items → Bool
  | .close => true
  | .broken => false
  | .item head tail => skippable head && skippableItems tail

def skippableMembers : Members → Bool
  | .close => true
  | .broken => false
  | .badKey => false
  | .member _ value tail => skippable value && skippableMembers tail

end

/-- PipelineVisitor: up to the given number of commands, and no further element. -/
def visitCommands : Nat → Items → Visitor (List RedisCommand)
  | _, .close => pure []
  | _, .broken => fail
  | 0, .item head _ =>
    if skippable head then do
      modify fun limits => { limits with exceeded := some .pipelineCommands }
      fail
    else fail
  | maxCommands + 1, .item head tail => do
    let command ← visitCommand head
    let commands ← visitCommands maxCommands tail
    pure (command :: commands)

def visitPipeline (maxCommands : Nat) (node : Node) : Visitor (List RedisCommand) := do
  charge
  match node with
  | .array items => visitCommands maxCommands items
  | _ => fail

def classify : Option LimitExceeded → ParseError
  | some .pipelineCommands => .pipelineTooLarge
  | some .requestElements => .requestTooComplex
  | none => .invalid

def read {α : Type} (visit : Node → Visitor α) (maxRequestElements : Nat) (document : Document) : Except ParseError α :=
  match visit document.root ⟨maxRequestElements, none⟩ with
  | .error _ limits => .error (classify limits.exceeded)
  | .ok value _ => if document.trailing then .error .invalid else .ok value

def command (document : Document) (maxRequestElements : Nat) : Except ParseError RedisCommand :=
  read visitCommand maxRequestElements document

def pipeline (document : Document) (maxCommands maxRequestElements : Nat) : Except ParseError (List RedisCommand) :=
  read (visitPipeline maxCommands) maxRequestElements document

/-- A pipeline has no more commands than the limit. -/
theorem visitCommands_length {maxCommands : Nat} {items : Items} {before after : Limits} {commands : List RedisCommand}
    (h : visitCommands maxCommands items before = .ok commands after) : commands.length ≤ maxCommands := by
  induction maxCommands generalizing items before commands with
  | zero =>
    cases items with
    | close => cases h; exact Nat.le_refl _
    | broken => cases h
    | item head tail =>
      rw [visitCommands] at h
      split at h <;> cases h
  | succ maxCommands ih =>
    cases items with
    | close => cases h; exact Nat.zero_le _
    | broken => cases h
    | item head tail =>
      obtain ⟨command, middle, -, h⟩ := run_bind_eq_ok h
      obtain ⟨rest, last, hrest, h⟩ := run_bind_eq_ok h
      cases h
      exact Nat.succ_le_succ (ih hrest)

private theorem visitPipeline_length {maxCommands : Nat} {node : Node} {before after : Limits} {commands : List RedisCommand}
    (h : visitPipeline maxCommands node before = .ok commands after) : commands.length ≤ maxCommands := by
  obtain ⟨-, middle, -, h⟩ := run_bind_eq_ok h
  cases node with
  | array items => exact visitCommands_length h
  | _ => cases h

theorem pipeline_length {document : Document} {maxCommands maxRequestElements : Nat} {commands : List RedisCommand}
    (h : pipeline document maxCommands maxRequestElements = .ok commands) : commands.length ≤ maxCommands := by
  rw [pipeline, read] at h
  split at h
  · cases h
  · rename_i value limits hv
    obtain ⟨-, hc⟩ := reject_eq_ok.mp h
    cases hc
    exact visitPipeline_length hv

end Srh.Http.Parse
