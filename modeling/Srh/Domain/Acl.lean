import Srh.Config
import Srh.Domain.Identity
import Srh.Lib.Ascii
import Srh.Lib.Utf8
import Srh.Ports

/-! The command policy of domain/acl.rs. SHA-256 is a parameter. -/
namespace Srh.Domain
open Srh.Lib Srh.Ports

namespace Acl

/-- Commands that inspect or control the server, its topology or the session of a
pooled connection, and commands that block it. -/
def hardDeny : List String :=
  ["CONFIG", "SHUTDOWN", "DEBUG", "SLAVEOF", "REPLICAOF", "MIGRATE", "MODULE", "SAVE", "BGSAVE",
    "BGREWRITEAOF", "LASTSAVE", "ACL", "CLIENT", "CLUSTER", "LATENCY", "MONITOR", "PSYNC", "SYNC", "FAILOVER",
    "RESET", "SLOWLOG", "COMMAND", "MEMORY", "HELLO", "SELECT", "SWAPDB", "AUTH", "QUIT", "MULTI", "EXEC",
    "DISCARD", "WATCH", "UNWATCH", "SUBSCRIBE", "PSUBSCRIBE", "UNSUBSCRIBE", "PUNSUBSCRIBE", "SSUBSCRIBE",
    "SUNSUBSCRIBE", "PUBLISH", "PUBSUB", "BLPOP", "BRPOP", "BLMOVE", "BRPOPLPUSH", "BLMPOP", "BZPOPMIN",
    "BZPOPMAX", "BZMPOP", "WAIT", "WAITAOF", "SCRIPT", "FUNCTION"]

def scripting : List String :=
  ["EVAL", "EVALSHA", "EVALSHA_RO", "EVAL_RO", "FCALL", "FCALL_RO"]

def defaultBlock : List String :=
  ["FLUSHALL", "FLUSHDB", "KEYS", "RANDOMKEY", "INFO", "DBSIZE"]

def readCommands : List String :=
  ["GET", "MGET", "GETRANGE", "STRLEN", "EXISTS", "TYPE", "TTL", "PTTL", "EXPIRETIME", "PEXPIRETIME", "HGET",
    "HMGET", "HGETALL", "HKEYS", "HVALS", "HLEN", "HEXISTS", "HSTRLEN", "HRANDFIELD", "LRANGE", "LLEN",
    "LINDEX", "LPOS", "SMEMBERS", "SISMEMBER", "SMISMEMBER", "SCARD", "SRANDMEMBER", "SINTER", "SUNION",
    "SDIFF", "SINTERCARD", "ZRANGE", "ZRANGEBYSCORE", "ZRANGEBYLEX", "ZREVRANGE", "ZREVRANGEBYSCORE",
    "ZREVRANGEBYLEX", "ZSCORE", "ZMSCORE", "ZCARD", "ZCOUNT", "ZLEXCOUNT", "ZRANK", "ZREVRANK", "ZRANDMEMBER",
    "GETBIT", "BITCOUNT", "BITPOS", "BITFIELD_RO", "XRANGE", "XREVRANGE", "XLEN", "XREAD", "XINFO", "GEOPOS",
    "GEODIST", "GEOHASH", "GEOSEARCH", "PFCOUNT", "OBJECT", "DUMP", "TOUCH", "TIME", "PING", "ECHO", "SORT_RO",
    "LCS", "SUBSTR"]

inductive AclError where
  | invalidCommand
  | forbidden (message : String)
  deriving DecidableEq, Repr

def denied (name : String) : AclError :=
  .forbidden s!"NOPERM this token does not have permission to run '{name}'"

def blockingXread : AclError := .forbidden "NOPERM blocking XREAD is not allowed"

def adminAllow (name : String) (subcommand : Option Bytes) : Bool :=
  match name, subcommand.map fun value => Ascii.toUppercase (Utf8.fromUtf8Lossy value) with
  | "CONFIG", some "GET" => true
  | "CLIENT", some "LIST" => true
  | "CLIENT", some "INFO" => true
  | "SLOWLOG", some "GET" => true
  | "SLOWLOG", some "LEN" => true
  | "INFO", _ => true
  | "COMMAND", some "COUNT" => true
  | "COMMAND", some "INFO" => true
  | "COMMAND", some "DOCS" => true
  | "LATENCY", some "HISTORY" => true
  | "LATENCY", some "LATEST" => true
  | "MEMORY", some "USAGE" => true
  | "MEMORY", some "STATS" => true
  | "MEMORY", some "DOCTOR" => true
  | "ACL", some "WHOAMI" => true
  | _, _ => false

def hexDigest (bytes : Bytes) : String :=
  String.ofList (bytes.flatMap fun b => [Ascii.hexDigit (b.toNat / 16), Ascii.hexDigit (b.toNat % 16)])

section Check
variable (sha256 : Bytes → Digest) (identity : Identity)

def checkScripting (name : String) (command : RedisCommand) : Except AclError Unit :=
  if name ∉ scripting then .ok ()
  else if (name ≠ "EVAL" ∧ name ≠ "EVAL_RO") ∨ identity.allowedScriptSha256 = ∅ then .error (denied name)
  else match command.args.head? with
    | none => .error (denied name)
    | some script =>
      if hexDigest (sha256 script).toList ∉ identity.allowedScriptSha256 then .error (denied name) else .ok ()

def mentions (command : RedisCommand) (keyword : String) : Bool :=
  command.args.any fun argument => Ascii.eqIgnoreCase argument (Ascii.bytes keyword)

/-- The checks after the name is known to be non-empty, on its upper-case form. -/
def checkName (name : String) (command : RedisCommand) : Except AclError Unit := do
  let adminAllowed := identity.isAdmin && adminAllow name command.args.head?
  refuse (name ∈ hardDeny ∧ adminAllowed = false) (denied name)
  checkScripting sha256 identity name command
  refuse ((name = "XREAD" ∨ name = "XREADGROUP") ∧ mentions command "BLOCK") blockingXread
  refuse (identity.keyPrefix.isSome ∧ (name = "SORT" ∨ name = "SORT_RO") ∧
    (mentions command "BY" ∨ mentions command "GET")) (denied name)
  refuse (name ∈ identity.blockedCommands) (denied name)
  let explicitlyAllowed := identity.allowedCommands.any fun commands => name ∈ commands
  refuse (identity.legacy = false ∧ name ∈ defaultBlock ∧ explicitlyAllowed = false ∧ adminAllowed = false) (denied name)
  refuse (identity.allowedCommands.any fun commands => name ∉ commands) (denied name)
  refuse (identity.readOnly ∧ name ∉ readCommands) (denied name)

def check (command : RedisCommand) : Except AclError Unit :=
  if command.name = "" then .error .invalidCommand
  else checkName sha256 identity (Ascii.toUppercase command.name) command

end Check

/-- The refusals that stand in a pipeline's own entry. -/
def Forbids : AclError → Prop
  | .forbidden _ => True
  | .invalidCommand => False

private theorem checkScripting_forbids (sha256 : Bytes → Digest) (identity : Identity) (name : String) (command : RedisCommand) :
    Fails Forbids (checkScripting sha256 identity name command) := by
  intro e he
  rw [checkScripting] at he
  split at he
  · cases he
  · split at he
    · cases he; trivial
    · split at he
      · cases he; trivial
      · split at he
        · cases he; trivial
        · cases he

private theorem checkName_forbids (sha256 : Bytes → Digest) (identity : Identity) (name : String) (command : RedisCommand) :
    Fails Forbids (checkName sha256 identity name command) := by
  have hd : ∀ {p : Prop} [Decidable p], Fails Forbids (refuse p (denied name)) := fails_refuse trivial
  rw [checkName]
  apply Fails.and_then hd
  apply Fails.and_then (checkScripting_forbids sha256 identity name command)
  apply Fails.and_then
  · apply fails_refuse
    trivial
  apply Fails.and_then hd
  apply Fails.and_then hd
  apply Fails.and_then hd
  apply Fails.and_then hd
  exact hd

/-- Only a command without a name is invalid; every other refusal is a denial. -/
theorem check_invalid_iff {sha256 : Bytes → Digest} {identity : Identity} {command : RedisCommand} :
    check sha256 identity command = .error .invalidCommand ↔ command.name = "" := by
  rw [check]
  split
  · rename_i hn
    exact ⟨fun _ => hn, fun _ => rfl⟩
  · rename_i hn
    exact ⟨fun h => (checkName_forbids _ _ _ _ _ h).elim, fun h => absurd h hn⟩

end Acl
end Srh.Domain
