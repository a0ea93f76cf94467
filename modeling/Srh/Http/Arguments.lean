import Srh.Http.Grammar

/-! The two ways to read a command argument: ArgumentVisitor writes the bytes of a
scalar by itself, ValueVisitor builds the value that json_value_to_bytes converts. -/
namespace Srh.Http.Parse
open Srh.Lib Srh.Domain Srh.Ports

/-- The number of serde_json. A float is kept as its text. -/
inductive Number where
  | posInt (value : Nat)
  | negInt (value : Int)
  | float (text : String)
  deriving DecidableEq, Repr

namespace Number

def fromI64 (value : Int) : Number := if value < 0 then .negInt value else .posInt value.toNat

def fromU64 (value : Nat) : Number := .posInt value

/-- A float that is not finite is no number. -/
def fromF64 (text : Option String) : Option Number := text.map .float

def toText : Number → String
  | posInt value => toString value
  | negInt value => toString value
  | float text => text

private theorem toText_fromI64 (value : Int) : (fromI64 value).toText = toString value := by
  rw [fromI64]
  split
  · rfl
  · rename_i h
    obtain ⟨n, rfl⟩ := Int.eq_ofNat_of_zero_le (Int.not_lt.mp h)
    rfl

end Number

inductive Scalar where
  | bool (value : Bool)
  | i64 (value : Int)
  | u64 (value : Nat)
  | f64 (text : Option String)
  | str (value : String)
  | string (value : String)
  | none
  | unit
  deriving DecidableEq, Repr

def Scalar.argument : Scalar → Option Bytes
  | bool value => some (Ascii.bytes (if value then "true" else "false"))
  | i64 value => some (Convert.utf8Bytes (Number.fromI64 value).toText)
  | u64 value => some (Convert.utf8Bytes (Number.fromU64 value).toText)
  | f64 text => (Number.fromF64 text).map fun number => Convert.utf8Bytes number.toText
  | str value => some (Convert.utf8Bytes value)
  | string value => some (Convert.utf8Bytes value)
  | none => some (Ascii.bytes "null")
  | unit => some (Ascii.bytes "null")

def Scalar.value : Scalar → Option Json
  | bool value => some (.bool value)
  | i64 value => some (.number (Number.fromI64 value).toText)
  | u64 value => some (.number (Number.fromU64 value).toText)
  | f64 text => (Number.fromF64 text).map fun number => .number number.toText
  | str value => some (.string value)
  | string value => some (.string value)
  | none => some .null
  | unit => some .null

/-- The method that a scalar node is given to. A string may be borrowed or owned. -/
inductive Presents : Node → Scalar → Prop where
  | none : Presents .null .none
  | unit : Presents .null .unit
  | bool (value : Bool) : Presents (.bool value) (.bool value)
  | i64 {value : Int} (h : value < 0) : Presents (.integer value) (.i64 value)
  | u64 (value : Nat) : Presents (.integer value) (.u64 value)
  | f64 (text : Option String) : Presents (.float text) (.f64 text)
  | str (value : String) : Presents (.string value) (.str value)
  | string (value : String) : Presents (.string value) (.string value)

def orFail {α : Type} : Option α → Visitor α
  | some a => pure a
  | none => fail

def argumentSeed (node : Node) : Visitor Bytes := do
  charge
  visitArgument node

def valueSeed (node : Node) : Visitor Json := do
  charge
  visitValue node

section Scalars

private theorem scalar_argument (scalar : Scalar) :
    scalar.argument = scalar.value.bind fun value => (Convert.jsonValueToBytes value).toOption := by
  cases scalar with
  | bool value => cases value <;> rfl
  | i64 value => rw [Scalar.value, Option.bind_some, Convert.jsonValueToBytes_number]; rfl
  | u64 value => rw [Scalar.value, Option.bind_some, Convert.jsonValueToBytes_number]; rfl
  | f64 text =>
    cases text with
    | none => rfl
    | some text => exact (congrArg Except.toOption (Convert.jsonValueToBytes_number text)).symm
  | str value => rfl
  | string value => rfl
  | none => rfl
  | unit => rfl

private theorem Presents.visits {node : Node} {scalar : Scalar} (h : Presents node scalar) :
    visitArgument node = orFail scalar.argument ∧ visitValue node = orFail scalar.value := by
  cases h with
  | none => exact ⟨rfl, rfl⟩
  | unit => exact ⟨rfl, rfl⟩
  | bool value => exact ⟨rfl, rfl⟩
  | @i64 value h =>
    rw [Scalar.argument, Scalar.value, Number.toText_fromI64]
    exact ⟨rfl, rfl⟩
  | u64 value => exact ⟨rfl, rfl⟩
  | f64 text => cases text <;> exact ⟨rfl, rfl⟩
  | str value => exact ⟨rfl, rfl⟩
  | string value => exact ⟨rfl, rfl⟩

end Scalars

section Seeds

/-- A scalar is written as its conversion would be; a nested value is converted. -/
theorem visitArgument_eq (node : Node) : visitArgument node = visitValue node >>= nested := by
  have hscalar : ∀ {scalar : Scalar}, Presents node scalar → visitArgument node = visitValue node >>= nested := by
    intro scalar h
    obtain ⟨hargument, hvalue⟩ := h.visits
    rw [hargument, hvalue, scalar_argument]
    cases scalar.value with
    | none => rfl
    | some value =>
      change orFail (Convert.jsonValueToBytes value).toOption = nested value
      rw [nested]
      cases Convert.jsonValueToBytes value <;> rfl
  cases node with
  | null => exact hscalar .unit
  | bool value => exact hscalar (.bool value)
  | integer value =>
    cases value with
    | ofNat value => exact hscalar (.u64 value)
    | negSucc value => exact hscalar (.i64 (Int.negSucc_lt_zero value))
  | float text => exact hscalar (.f64 text)
  | string value => exact hscalar (.str value)
  | array items => rw [visitArgument, visitValue, bind_assoc]; rfl
  | object members => rw [visitArgument, visitValue, bind_assoc]; rfl
  | bad skippable => rfl

private theorem nested_pure (value : Json) : ∃ bytes, Convert.jsonValueToBytes value = .ok bytes ∧ nested value = pure bytes := by
  cases value <;> exact ⟨_, rfl, rfl⟩

/-- All arguments of a command: converting each value as it is read is converting
them at the end. -/
theorem visitArguments_eq (items : Items) : visitArguments items = visitItems items >>= fun values => values.mapM nested := by
  cases items with
  | close => rfl
  | broken => rfl
  | item head tail =>
    rw [visitArguments, visitItems, visitArgument_eq, visitArguments_eq tail]
    simp only [bind_assoc, pure_bind]
    refine bind_congr fun _ => bind_congr fun value => ?_
    obtain ⟨bytes, -, hnested⟩ := nested_pure value
    simp only [List.mapM_cons, hnested, pure_bind]

end Seeds

section Bodies

def Documented (value : Json) (command : RedisCommand) : Prop :=
  ∃ values, value = .array (.string command.name :: values) ∧ values.mapM Convert.jsonValueToBytes = .ok command.args

private theorem argumentsOf_documented : ∀ {items : Items} {args : List Bytes}, argumentsOf items = some args →
    ∃ values, jsonItems items = some values ∧ values.mapM Convert.jsonValueToBytes = .ok args
  | .close, args, h => by
    cases h
    exact ⟨[], rfl, rfl⟩
  | .broken, args, h => by cases h
  | .item head tail, args, h => by
    obtain ⟨argument, hargument, h⟩ := Option.bind_eq_some_iff.mp h
    obtain ⟨arguments, harguments, h⟩ := Option.bind_eq_some_iff.mp h
    obtain ⟨value, hvalue, hbytes⟩ := Option.bind_eq_some_iff.mp hargument
    obtain ⟨values, hvalues, hrest⟩ := argumentsOf_documented harguments
    obtain ⟨bytes, hb, -⟩ := nested_pure value
    rw [hb] at hbytes
    cases hbytes
    cases h
    refine ⟨value :: values, ?_, ?_⟩
    · rw [jsonItems, hvalue, hvalues]
      rfl
    · rw [List.mapM_cons, hb, hrest]
      rfl

private theorem commandOf_documented {node : Node} {command : RedisCommand} (h : commandOf node = some command) :
    ∃ value, jsonOf node = some value ∧ Documented value command := by
  rw [commandOf.eq_def] at h
  split at h
  · rename_i name rest
    obtain ⟨args, hargs, rfl⟩ := Option.map_eq_some_iff.mp h
    obtain ⟨values, hvalues, hbytes⟩ := argumentsOf_documented hargs
    refine ⟨.array (.string name :: values), ?_, values, rfl, hbytes⟩
    rw [jsonOf, jsonItems, jsonOf, hvalues]
    rfl
  · cases h

private theorem commandsOf_documented : ∀ {items : Items} {commands : List RedisCommand}, commandsOf items = some commands →
    ∃ values, jsonItems items = some values ∧ List.Forall₂ Documented values commands
  | .close, commands, h => by
    cases h
    exact ⟨[], rfl, .nil⟩
  | .broken, commands, h => by cases h
  | .item head tail, commands, h => by
    obtain ⟨command, hcommand, h⟩ := Option.bind_eq_some_iff.mp h
    obtain ⟨rest, hrest, h⟩ := Option.bind_eq_some_iff.mp h
    cases h
    obtain ⟨value, hvalue, hdocumented⟩ := commandOf_documented hcommand
    obtain ⟨values, hvalues, hall⟩ := commandsOf_documented hrest
    refine ⟨value :: values, ?_, .cons hdocumented hall⟩
    rw [jsonItems, hvalue, hvalues]
    rfl

end Bodies

/-- Reading an argument directly is reading the value and converting it, to the last
element of the budget and for every scalar method; so the arguments of every command
that is parsed are the documented conversion of its body. -/
theorem direct_arguments_are_converted :
    (∀ (node : Node) (limits : Limits), argumentSeed node limits = (valueSeed node >>= nested) limits) ∧
    (∀ (scalar : Scalar), scalar.argument = scalar.value.bind fun value => (Convert.jsonValueToBytes value).toOption) ∧
    (∀ (node : Node) (scalar : Scalar), Presents node scalar →
      visitArgument node = orFail scalar.argument ∧ visitValue node = orFail scalar.value) ∧
    (∀ (items : Items) (limits : Limits),
      visitArguments items limits = (visitItems items >>= fun values => values.mapM nested) limits) ∧
    (∀ (document : Document) (maxRequestElements : Nat) (value : RedisCommand),
      command document maxRequestElements = .ok value → ∃ body, jsonOf document.root = some body ∧ Documented body value) ∧
    ∀ (document : Document) (maxCommands maxRequestElements : Nat) (commands : List RedisCommand),
      pipeline document maxCommands maxRequestElements = .ok commands →
      ∃ bodies, jsonOf document.root = some (.array bodies) ∧ List.Forall₂ Documented bodies commands := by
  refine ⟨?_, scalar_argument, fun node scalar h => h.visits, ?_, ?_, ?_⟩
  · intro node limits
    rw [argumentSeed, valueSeed, bind_assoc, visitArgument_eq]
  · intro items limits
    rw [visitArguments_eq]
  · intro document maxRequestElements value h
    exact commandOf_documented (command_eq_ok.mp h).1
  · intro document maxCommands maxRequestElements commands h
    obtain ⟨hroot, -⟩ := pipeline_eq_ok.mp h
    cases hr : document.root with
    | array items =>
      rw [hr] at hroot
      obtain ⟨values, hvalues, hall⟩ := commandsOf_documented hroot
      exact ⟨values, by rw [jsonOf, hvalues]; rfl, hall⟩
    | _ =>
      rw [hr] at hroot
      cases hroot

def nestedCommand : Node :=
  .array (.item (.string "SET") (.item (.integer (-1)) (.item (.array (.item .null .close)) .close)))

theorem direct_arguments_are_converted_nested :
    (argumentSeed (.integer (-1)) ⟨1, none⟩ = (valueSeed (.integer (-1)) >>= nested) ⟨1, none⟩) ∧
    (visitArgument (.integer (-1)) = orFail (Scalar.argument (.i64 (-1)))) ∧
    ∃ body, jsonOf nestedCommand = some body ∧ Documented body ⟨"SET", [Ascii.bytes "-1", Ascii.bytes "[null]"]⟩ :=
  ⟨direct_arguments_are_converted.1 _ _,
    (direct_arguments_are_converted.2.2.1 _ _ (.i64 (by decide))).1,
    direct_arguments_are_converted.2.2.2.2.1 ⟨nestedCommand, false⟩ 5 _ (by decide)⟩

end Srh.Http.Parse
