import Srh.Lib.Json

/-! The probes of http/health.rs. -/
namespace Srh.Http
open Srh.Lib

inductive PoolReadinessStatus where
  | ready
  | unavailable (reason : String)
  deriving DecidableEq, Repr

structure PoolReadiness where
  pool : String
  status : PoolReadinessStatus
  deriving DecidableEq, Repr

namespace Health

def health : Json := .object [("status", .string "ok")]

def entry : PoolReadinessStatus → Json
  | .ready => .object [("status", .string "ready")]
  | .unavailable reason => .object [("error", .string reason), ("status", .string "unavailable")]

/-- The loop over the pools: the flag and the entries, of which the last under a name
stays. -/
def collect (pools : List PoolReadiness) : Bool × List (String × Json) :=
  pools.foldl (fun acc pool => (acc.1 && pool.status = .ready, Json.insert pool.pool (entry pool.status) acc.2)) (true, [])

def allReady (pools : List PoolReadiness) : Bool := (collect pools).1

def status (pools : List PoolReadiness) : Nat := if allReady pools then 200 else 503

def ready (pools : List PoolReadiness) : Json :=
  .object [("pools", .object (collect pools).2), ("status", .string (if allReady pools then "ready" else "not_ready"))]

end Health
end Srh.Http
