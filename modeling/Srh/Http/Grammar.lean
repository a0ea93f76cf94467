import Srh.Http.Parse
import Srh.Lib.Metered

/-! What the bounded parser accepts. A document denotes a JSON value, a command or a
pipeline, or nothing; a visitor reads what is denoted and charges one element for
each node. -/
namespace Srh.Http.Parse
open Srh.Lib Srh.Domain Srh.Ports

mutual

def nodes : Node → Nat
  | .array items => 1 + nodesItems items
  | .object members => 1 + nodesMembers members
  | _ => 1

def nodesItems : Items → Nat
  | .item head tail => nodes head + nodesItems tail
  | _ => 0

def nodesMembers : Members → Nat
  | .member _ value tail => 1 + nodes value + nodesMembers tail
  | _ => 0

end

mutual

/-- The JSON value that is denoted, if there is no malformed place in it. -/
def jsonOf : Node → Option Json
  | .null => some .null
  | .bool value => some (.bool value)
  | .integer value => some (.number (toString value))
  | .float text => text.map .number
  | .string value => some (.string value)
  | .array items => (jsonItems items).map .array
  | .object members => (jsonMembers members []).map .object
  | .bad _ => none

def jsonItems : Items → Option (List Json)
  | .close => some []
  | .broken => none
  | .item head tail => do
    let value ← jsonOf head
    let values ← jsonItems tail
    some (value :: values)

def jsonMembers : Members → List (String × Json) → Option (List (String × Json))
  | .close, values => some values
  | .broken, _ => none
  | .badKey, _ => none
  | .member key node tail, values => do
    let value ← jsonOf node
    jsonMembers tail (Json.insert key value values)

end

def argumentOf (node : Node) : Option Bytes := do
  let value ← jsonOf node
  (Convert.jsonValueToBytes value).toOption

def argumentsOf : Items → Option (List Bytes)
  | .close => some []
  | .broken => none
  | .item head tail => do
    let argument ← argumentOf head
    let arguments ← argumentsOf tail
    some (argument :: arguments)

def commandOf : Node → Option RedisCommand
  | .array (.item (.string name) rest) => (argumentsOf rest).map (⟨name, ·⟩)
  | _ => none

def commandsOf : Items → Option (List RedisCommand)
  | .close => some []
  | .broken => none
  | .item head tail => do
    let command ← commandOf head
    let commands ← commandsOf tail
    some (command :: commands)

def pipelineOf : Node → Option (List RedisCommand)
  | .array items => commandsOf items
  | _ => none

/-- The visitor charges the amount and reads what is denoted. -/
abbrev Visits {α : Type} (visit : Visitor α) (amount : Nat) (denoted : Option α) : Prop :=
  Reads (fun r => (⟨r, none⟩ : Limits)) () ⟨0, some .requestElements⟩ Limits.remaining visit amount denoted

section Visitors

private theorem charge_visits : Visits charge 1 (some ()) := by
  intro r
  cases r <;> rfl

private theorem fail_visits {α : Type} (n : Nat) : Visits (fail : Visitor α) n none :=
  ⟨0, fun r => ⟨r, none⟩, fun _ => rfl, fun _ => rfl⟩

private theorem nodes_pos (node : Node) : 1 ≤ nodes node := by
  cases node <;> simp [nodes]

/-- A charge, and then what is inside a value. -/
theorem Visits.charged {α : Type} {visit : Visitor α} {n : Nat} {denoted : Option α} (h : Visits visit n denoted) :
    Visits (charge >>= fun _ => visit) (1 + n) denoted :=
  Reads.bind charge_visits fun _ _ => h

private theorem Visits.of_eq {α : Type} {visit : Visitor α} {m n : Nat} {denoted : Option α} (h : Visits visit m denoted) (hmn : m = n) :
    Visits visit n denoted := hmn ▸ h

mutual

theorem visitValue_visits : ∀ node, Visits (visitValue node) (nodes node - 1) (jsonOf node)
  | .null => reads_pure _
  | .bool _ => reads_pure _
  | .integer _ => reads_pure _
  | .float (some _) => reads_pure _
  | .float none => fail_visits _
  | .string _ => reads_pure _
  | .array items => by
    rw [visitValue, jsonOf, Option.map_eq_bind, nodes, Nat.add_sub_cancel_left]
    exact Reads.bind (visitItems_visits items) fun values _ => reads_pure _
  | .object members => by
    rw [visitValue, jsonOf, Option.map_eq_bind, nodes, Nat.add_sub_cancel_left]
    exact Reads.bind (visitMembers_visits members []) fun values _ => reads_pure _
  | .bad _ => fail_visits _

theorem visitItems_visits : ∀ items, Visits (visitItems items) (nodesItems items) (jsonItems items)
  | .close => reads_pure _
  | .broken => fail_visits _
  | .item head tail => by
    rw [visitItems, jsonItems, nodesItems]
    have hinner := Reads.bind (visitValue_visits head) fun value _ =>
      Reads.bind (visitItems_visits tail) fun values _ => reads_pure (value :: values)
    have hpos := nodes_pos head
    exact (Visits.charged hinner).of_eq (by omega)

theorem visitMembers_visits : ∀ members values, Visits (visitMembers members values) (nodesMembers members) (jsonMembers members values)
  | .close, _ => reads_pure _
  | .broken, _ => fail_visits _
  | .badKey, _ => by
    rw [visitMembers, jsonMembers]
    exact Reads.bind charge_visits fun _ _ => fail_visits 0
  | .member key node tail, values => by
    rw [visitMembers, jsonMembers, nodesMembers]
    have hinner := Reads.bind (visitValue_visits node) fun value _ => visitMembers_visits tail (Json.insert key value values)
    have hpos := nodes_pos node
    exact (Visits.charged (Visits.charged hinner)).of_eq (by omega)

end

private theorem nested_visits (value : Json) : Visits (nested value) 0 (Convert.jsonValueToBytes value).toOption := by
  rw [nested]
  cases Convert.jsonValueToBytes value with
  | ok bytes => exact reads_pure bytes
  | error error => exact fail_visits 0

/-- Scalars are written directly, and as their JSON text would be. -/
theorem visitArgument_visits (node : Node) : Visits (visitArgument node) (nodes node - 1) (argumentOf node) := by
  cases node with
  | null => exact reads_pure _
  | bool value => cases value <;> exact reads_pure _
  | integer value =>
    have hargument : argumentOf (.integer value) = some (Convert.utf8Bytes (toString value)) :=
      congrArg Except.toOption (Convert.jsonValueToBytes_number (toString value))
    rw [hargument]
    exact reads_pure _
  | float text =>
    cases text with
    | none => exact fail_visits 0
    | some text =>
      have hargument : argumentOf (.float (some text)) = some (Convert.utf8Bytes text) :=
        congrArg Except.toOption (Convert.jsonValueToBytes_number text)
      rw [hargument]
      exact reads_pure _
  | string value => exact reads_pure _
  | array items =>
    rw [visitArgument, argumentOf, jsonOf, nodes, Nat.add_sub_cancel_left, Option.map_eq_bind, Option.bind_eq_bind, Option.bind_assoc]
    exact Reads.bind (visitItems_visits items) fun values _ => nested_visits (.array values)
  | object members =>
    rw [visitArgument, argumentOf, jsonOf, nodes, Nat.add_sub_cancel_left, Option.map_eq_bind, Option.bind_eq_bind, Option.bind_assoc]
    exact Reads.bind (visitMembers_visits members []) fun values _ => nested_visits (.object values)
  | bad => exact fail_visits 0

private theorem visitArguments_visits : ∀ items, Visits (visitArguments items) (nodesItems items) (argumentsOf items)
  | .close => reads_pure _
  | .broken => fail_visits _
  | .item head tail => by
    rw [visitArguments, argumentsOf, nodesItems]
    have hinner := Reads.bind (visitArgument_visits head) fun argument _ =>
      Reads.bind (visitArguments_visits tail) fun arguments _ => reads_pure (argument :: arguments)
    have hpos := nodes_pos head
    exact (Visits.charged hinner).of_eq (by omega)

def nameOf : Node → Option String
  | .string name => some name
  | _ => none

private theorem visitName_visits (node : Node) : Visits (visitName node) 1 (nameOf node) := by
  cases node with
  | string name => exact Visits.charged (reads_pure name)
  | _ => exact (fail_visits 0).charged

private theorem visitCommand_visits (node : Node) : Visits (visitCommand node) (nodes node) (commandOf node) := by
  cases node with
  | array items =>
    cases items with
    | item first rest =>
      have hinner := Reads.bind (visitName_visits first) fun name _ =>
        Reads.bind (visitArguments_visits rest) fun args _ => reads_pure (⟨name, args⟩ : RedisCommand)
      cases first with
      | string name =>
        rw [commandOf, Option.map_eq_bind]
        exact Visits.charged hinner
      | _ => exact Visits.charged hinner
    | _ => exact (fail_visits 0).charged
  | _ => exact (fail_visits 0).charged

def atMost (maxCommands : Nat) (items : Items) : Option (List RedisCommand) :=
  (commandsOf items).filter fun commands => commands.length ≤ maxCommands

private theorem atMost_item (maxCommands : Nat) (head : Node) (tail : Items) :
    atMost (maxCommands + 1) (.item head tail) =
      (commandOf head).bind fun command => (atMost maxCommands tail).bind fun commands => some (command :: commands) := by
  rw [atMost, atMost, commandsOf]
  cases commandOf head with
  | none => rfl
  | some command =>
    cases commandsOf tail with
    | none => rfl
    | some commands => by_cases h : commands.length ≤ maxCommands <;> simp [Option.filter, h]

private theorem visitCommands_visits (maxCommands : Nat) (items : Items) :
    Visits (visitCommands maxCommands items) (nodesItems items) (atMost maxCommands items) := by
  induction maxCommands generalizing items with
  | zero =>
    cases items with
    | close => exact reads_pure _
    | broken => exact fail_visits 0
    | item head tail =>
      have hnone : atMost 0 (.item head tail) = none := by
        rw [atMost, commandsOf]
        cases commandOf head <;> cases commandsOf tail <;> rfl
      rw [visitCommands, hnone]
      split
      · exact ⟨0, fun r => ⟨r, some .pipelineCommands⟩, fun _ => rfl, fun _ => rfl⟩
      · exact fail_visits 0
  | succ maxCommands ih =>
    cases items with
    | close => exact reads_pure _
    | broken => exact fail_visits 0
    | item head tail =>
      rw [visitCommands, atMost_item, nodesItems]
      exact Reads.bind (visitCommand_visits head) fun command _ => Reads.bind (ih tail) fun commands _ => reads_pure _

private theorem visitPipeline_visits (maxCommands : Nat) (node : Node) : Visits (visitPipeline maxCommands node) (nodes node)
    ((pipelineOf node).filter fun commands => commands.length ≤ maxCommands) := by
  cases node with
  | array items =>
    rw [nodes]
    exact (visitCommands_visits maxCommands items).charged
  | _ => exact (fail_visits 0).charged

end Visitors

section TooMany

mutual

/-- What can be read can be skipped. -/
theorem skippable_of_jsonOf : ∀ node, (jsonOf node).isSome → skippable node
  | .null, _ | .bool _, _ | .integer _, _ | .float _, _ | .string _, _ => rfl
  | .array items, h => skippableItems_of_jsonItems items (by simpa [jsonOf] using h)
  | .object members, h => skippableMembers_of_jsonMembers members [] (by simpa [jsonOf] using h)
  | .bad _, h => by cases h

theorem skippableItems_of_jsonItems : ∀ items, (jsonItems items).isSome → skippableItems items
  | .close, _ => rfl
  | .broken, h => by cases h
  | .item head tail, h => by
    obtain ⟨values, h⟩ := Option.isSome_iff_exists.mp h
    obtain ⟨value, hvalue, h⟩ := Option.bind_eq_some_iff.mp h
    obtain ⟨rest, hrest, -⟩ := Option.bind_eq_some_iff.mp h
    rw [skippableItems, skippable_of_jsonOf head (Option.isSome_of_eq_some hvalue),
      skippableItems_of_jsonItems tail (Option.isSome_of_eq_some hrest)]
    rfl

theorem skippableMembers_of_jsonMembers : ∀ members values, (jsonMembers members values).isSome → skippableMembers members
  | .close, _, _ => rfl
  | .broken, _, h => by cases h
  | .badKey, _, h => by cases h
  | .member key node tail, values, h => by
    obtain ⟨all, h⟩ := Option.isSome_iff_exists.mp h
    obtain ⟨value, hvalue, h⟩ := Option.bind_eq_some_iff.mp h
    rw [skippableMembers, skippable_of_jsonOf node (Option.isSome_of_eq_some hvalue),
      skippableMembers_of_jsonMembers tail _ (Option.isSome_of_eq_some h)]
    rfl

end

private theorem skippableItems_of_argumentsOf : ∀ items, (argumentsOf items).isSome → skippableItems items
  | .close, _ => rfl
  | .broken, h => by cases h
  | .item head tail, h => by
    obtain ⟨arguments, h⟩ := Option.isSome_iff_exists.mp h
    obtain ⟨argument, hargument, h⟩ := Option.bind_eq_some_iff.mp h
    obtain ⟨rest, hrest, -⟩ := Option.bind_eq_some_iff.mp h
    obtain ⟨value, hvalue, -⟩ := Option.bind_eq_some_iff.mp hargument
    rw [skippableItems, skippable_of_jsonOf head (Option.isSome_of_eq_some hvalue),
      skippableItems_of_argumentsOf tail (Option.isSome_of_eq_some hrest)]
    rfl

private theorem skippable_of_commandOf {node : Node} {command : RedisCommand} (h : commandOf node = some command) : skippable node := by
  rw [commandOf.eq_def] at h
  split at h
  · rename_i name rest
    obtain ⟨args, hargs, -⟩ := Option.map_eq_some_iff.mp h
    exact skippableItems_of_argumentsOf rest (Option.isSome_of_eq_some hargs)
  · cases h

def Items.toList : Items → List Node
  | .item head tail => head :: tail.toList
  | _ => []

def firstNodes (maxCommands : Nat) (items : Items) : Nat := ((items.toList.take maxCommands).map nodes).sum

/-- The command past the limit is not charged. -/
theorem visitCommands_tooMany {maxCommands : Nat} {items : Items} {commands : List RedisCommand}
    (h : commandsOf items = some commands) (hl : maxCommands < commands.length) :
    Metered (fun r => (⟨r, none⟩ : Limits)) () ⟨0, some .requestElements⟩ (visitCommands maxCommands items)
      (firstNodes maxCommands items) fun r => .error () ⟨r, some .pipelineCommands⟩ := by
  induction maxCommands generalizing items commands with
  | zero =>
    cases items with
    | close =>
      cases h
      cases hl
    | broken => cases h
    | item head tail =>
      obtain ⟨command, hcommand, -⟩ := Option.bind_eq_some_iff.mp h
      rw [visitCommands, if_pos (skippable_of_commandOf hcommand)]
      exact fun _ => rfl
  | succ maxCommands ih =>
    cases items with
    | close =>
      cases h
      cases hl
    | broken => cases h
    | item head tail =>
      obtain ⟨command, hcommand, h⟩ := Option.bind_eq_some_iff.mp h
      obtain ⟨rest, hrest, h⟩ := Option.bind_eq_some_iff.mp h
      cases h
      have hhead := visitCommand_visits head
      rw [hcommand] at hhead
      rw [visitCommands, firstNodes, Items.toList, List.take_succ_cons, List.map_cons, List.sum_cons]
      exact Metered.bind hhead (ih hrest (Nat.lt_of_succ_lt_succ hl)).bind_error

end TooMany

section Documents
variable {document : Document} {maxCommands maxRequestElements : Nat}

private theorem read_eq_ok {α : Type} {visit : Node → Visitor α} {n : Nat} {denoted : Option α} {value : α}
    (h : Visits (visit document.root) n denoted) : read visit maxRequestElements document = .ok value ↔
      denoted = some value ∧ n ≤ maxRequestElements ∧ document.trailing = false := by
  have hread : read visit maxRequestElements document = .ok value ↔
      (∃ limits, visit document.root ⟨maxRequestElements, none⟩ = .ok value limits) ∧ document.trailing = false := by
    rw [read]
    cases visit document.root ⟨maxRequestElements, none⟩ with
    | error _ limits => simp
    | ok found limits => cases document.trailing <;> simp
  rw [hread]
  constructor
  · rintro ⟨⟨limits, hv⟩, ht⟩
    obtain ⟨hd, hn, -⟩ := h.eq_ok.mp hv
    exact ⟨hd, hn, ht⟩
  · rintro ⟨hd, hn, ht⟩
    exact ⟨⟨_, h.eq_ok.mpr ⟨hd, hn, rfl⟩⟩, ht⟩

/-- A denoted value with more nodes than the budget. -/
theorem read_tooComplex {α : Type} {visit : Node → Visitor α} {n : Nat} {value : α} (h : Visits (visit document.root) n (some value))
    (hn : maxRequestElements < n) : read visit maxRequestElements document = .error .requestTooComplex := by
  have hmeter := h maxRequestElements
  rw [if_neg (Nat.not_le.mpr hn)] at hmeter
  rw [read, hmeter]
  rfl

theorem command_eq_ok {value : RedisCommand} : command document maxRequestElements = .ok value ↔
    commandOf document.root = some value ∧ nodes document.root ≤ maxRequestElements ∧ document.trailing = false :=
  read_eq_ok (visitCommand_visits document.root)

theorem pipeline_eq_ok {commands : List RedisCommand} : pipeline document maxCommands maxRequestElements = .ok commands ↔
    pipelineOf document.root = some commands ∧ commands.length ≤ maxCommands ∧ nodes document.root ≤ maxRequestElements ∧
      document.trailing = false := by
  rw [pipeline, read_eq_ok (visitPipeline_visits maxCommands document.root), Option.filter_eq_some_iff, decide_eq_true_eq, and_assoc]

private theorem command_tooComplex {value : RedisCommand} (h : commandOf document.root = some value)
    (hn : maxRequestElements < nodes document.root) : command document maxRequestElements = .error .requestTooComplex :=
  read_tooComplex (h ▸ visitCommand_visits document.root) hn

private theorem pipeline_tooComplex {commands : List RedisCommand} (h : pipelineOf document.root = some commands)
    (hl : commands.length ≤ maxCommands) (hn : maxRequestElements < nodes document.root) :
    pipeline document maxCommands maxRequestElements = .error .requestTooComplex := by
  have hv := visitPipeline_visits maxCommands document.root
  rw [h, Option.filter_some, if_pos (decide_eq_true hl)] at hv
  exact read_tooComplex hv hn

private theorem pipeline_tooMany {items : Items} {commands : List RedisCommand} (hr : document.root = .array items)
    (h : commandsOf items = some commands) (hl : maxCommands < commands.length) :
    pipeline document maxCommands maxRequestElements =
      .error (if 1 + firstNodes maxCommands items ≤ maxRequestElements then .pipelineTooLarge else .requestTooComplex) := by
  have hmeter : visitPipeline maxCommands (.array items) ⟨maxRequestElements, none⟩ =
      if 1 + firstNodes maxCommands items ≤ maxRequestElements then
        .error () ⟨maxRequestElements - (1 + firstNodes maxCommands items), some .pipelineCommands⟩
      else .error () ⟨0, some .requestElements⟩ :=
    Metered.bind (g := fun _ => visitCommands maxCommands items) charge_visits (visitCommands_tooMany h hl) maxRequestElements
  rw [pipeline, read, hr, hmeter]
  by_cases hn : 1 + firstNodes maxCommands items ≤ maxRequestElements
  · rw [if_pos hn, if_pos hn]
    rfl
  · rw [if_neg hn, if_neg hn]
    rfl

/-- What is left of the budget after a parse, accepted or not. -/
def left {α : Type} (visit : Node → Visitor α) (maxRequestElements : Nat) (document : Document) : Nat :=
  (endState (visit document.root ⟨maxRequestElements, none⟩)).remaining

private theorem left_eq {α : Type} {visit : Node → Visitor α} {n : Nat} {denoted : Option α} (h : Visits (visit document.root) n denoted) :
    ∃ used, ∀ budget, left visit budget document + min used budget = budget := by
  obtain ⟨used, hused⟩ := h.used (fun _ => rfl) rfl
  refine ⟨used, fun budget => ?_⟩
  rw [left, hused budget]
  omega

end Documents

/-- The parser accepts exactly the commands and pipelines within its limits, tells
which limit a well-formed one exceeds, and charges as much of the budget as there
is: whatever the budget, what an unlimited parse would charge, or all of it. -/
theorem parser_grammar (document : Document) (maxCommands maxRequestElements : Nat) :
    (∀ value, command document maxRequestElements = .ok value ↔
      commandOf document.root = some value ∧ nodes document.root ≤ maxRequestElements ∧ document.trailing = false) ∧
    (∀ commands, pipeline document maxCommands maxRequestElements = .ok commands ↔
      pipelineOf document.root = some commands ∧ commands.length ≤ maxCommands ∧ nodes document.root ≤ maxRequestElements ∧
        document.trailing = false) ∧
    (∀ value, commandOf document.root = some value → maxRequestElements < nodes document.root →
      command document maxRequestElements = .error .requestTooComplex) ∧
    (∀ commands, pipelineOf document.root = some commands → commands.length ≤ maxCommands →
      maxRequestElements < nodes document.root → pipeline document maxCommands maxRequestElements = .error .requestTooComplex) ∧
    (∀ items commands, document.root = .array items → commandsOf items = some commands → maxCommands < commands.length →
      pipeline document maxCommands maxRequestElements =
        .error (if 1 + firstNodes maxCommands items ≤ maxRequestElements then .pipelineTooLarge else .requestTooComplex)) ∧
    (∃ used, ∀ budget, left visitCommand budget document + min used budget = budget) ∧
    ∃ used, ∀ budget, left (visitPipeline maxCommands) budget document + min used budget = budget := by
  refine ⟨fun value => command_eq_ok, fun commands => pipeline_eq_ok, ?_, ?_, ?_, ?_, ?_⟩
  · exact fun value h hn => command_tooComplex h hn
  · exact fun commands h hl hn => pipeline_tooComplex h hl hn
  · exact fun items commands hr h hl => pipeline_tooMany hr h hl
  · exact left_eq (visitCommand_visits document.root)
  · exact left_eq (visitPipeline_visits maxCommands document.root)

def twoCommands : Items :=
  .item (.array (.item (.string "SET") (.item (.array (.item .null .close)) .close)))
    (.item (.array (.item (.string "PING") .close)) .close)

theorem parser_grammar_twoCommands :
    pipeline ⟨.array twoCommands, false⟩ 2 7 = .ok [⟨"SET", [Ascii.bytes "[null]"]⟩, ⟨"PING", []⟩] ∧
    pipeline ⟨.array twoCommands, false⟩ 2 6 = .error .requestTooComplex ∧
    pipeline ⟨.array twoCommands, false⟩ 1 5 = .error .pipelineTooLarge ∧
    pipeline ⟨.array twoCommands, false⟩ 1 4 = .error .requestTooComplex :=
  ⟨((parser_grammar ⟨.array twoCommands, false⟩ 2 7).2.1 _).mpr (by decide),
    (parser_grammar ⟨.array twoCommands, false⟩ 2 6).2.2.2.1 _ rfl (by decide) (by decide),
    (parser_grammar ⟨.array twoCommands, false⟩ 1 5).2.2.2.2.1 twoCommands _ rfl rfl (by decide),
    (parser_grammar ⟨.array twoCommands, false⟩ 1 4).2.2.2.2.1 twoCommands _ rfl rfl (by decide)⟩

end Srh.Http.Parse
