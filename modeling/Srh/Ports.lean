import Srh.Domain.Resp

/-! The port types of ports/mod.rs. -/
namespace Srh.Ports
open Srh.Domain

structure RedisCommand where
  name : String
  args : List Bytes
  deriving DecidableEq, Repr

abbrev CommandResult := Except ExecError RespValue

/-- The result of a transaction: one failure for all of it, or one result for each
command. -/
abbrev BatchResult := Except ExecError (List CommandResult)

/-- The three operations of CommandExecutor. -/
inductive Operation where
  | execute (command : RedisCommand)
  | pipeline (commands : List RedisCommand)
  | transaction (commands : List RedisCommand)
  deriving DecidableEq, Repr

def Operation.commands : Operation → List RedisCommand
  | execute command => [command]
  | pipeline commands => commands
  | transaction commands => commands

end Srh.Ports
