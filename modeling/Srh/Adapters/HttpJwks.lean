import Mathlib.Logic.Function.Basic
import Srh.Domain.Identity
import Srh.Lib.Duration
import Srh.Lib.FiniteMap
import Srh.Lib.Machine

/-! The JWKS source of adapters/http_jwks.rs. Calls of key_for run concurrently:
each is at one of its await points, the cache is read and written in single steps,
and the outcome of a fetch is chosen by the outside. -/
namespace Srh.Adapters.HttpJwks
open Srh.Lib Srh.Domain

def forcedRefreshInterval : Nat := Duration.fromSecs 30

section Keys

inductive PublicKeyUse where
  | signature
  | other
  deriving DecidableEq, Repr

inductive KeyOperation where
  | verify
  | other
  deriving DecidableEq, Repr

inductive KeyAlgorithm where
  | rs256
  | rs384
  | rs512
  | es256
  | es384
  | other
  deriving DecidableEq, Repr

inductive EllipticCurve where
  | p256
  | p384
  | other
  deriving DecidableEq, Repr

inductive AlgorithmParameters where
  | rsa
  | ellipticCurve (curve : EllipticCurve)
  | other
  deriving DecidableEq, Repr

/-- A published key; what is not told apart is other, and the text is its JSON. -/
structure Jwk where
  publicKeyUse : Option PublicKeyUse
  keyOperations : Option (List KeyOperation)
  keyId : Option String
  keyAlgorithm : Option KeyAlgorithm
  algorithm : AlgorithmParameters
  text : Bytes
  deriving DecidableEq, Repr

def keyAlgorithm : AlgorithmParameters → Option KeyAlgorithm → Option JwtAlgorithm
  | .rsa, none => some .rs256
  | .rsa, some .rs256 => some .rs256
  | .rsa, some .rs384 => some .rs384
  | .rsa, some .rs512 => some .rs512
  | .ellipticCurve .p256, none => some .es256
  | .ellipticCurve .p384, none => some .es384
  | .ellipticCurve .p256, some .es256 => some .es256
  | .ellipticCurve .p384, some .es384 => some .es384
  | _, _ => none

def cacheableKey (jwk : Jwk) : Option (String × CachedKey) :=
  if jwk.publicKeyUse = some .other ∨ (jwk.keyOperations.any fun operations => .verify ∉ operations) then none
  else do
    let kid ← jwk.keyId
    let algorithm ← keyAlgorithm jwk.algorithm jwk.keyAlgorithm
    some (kid, ⟨algorithm, jwk.text⟩)

/-- The keys of a fetched set; the last of two with one id stays. -/
def keySet (jwks : List Jwk) : FiniteMap String CachedKey :=
  (jwks.filterMap cacheableKey).foldl (fun keys entry => keys.insert entry.1 entry.2) .empty

end Keys

structure Installed where
  keys : FiniteMap String CachedKey
  fetchedAt : Option Nat
  jwksUri : Option String

structure KeyCache extends Installed where
  lastForcedRefresh : Option Nat

def KeyCache.default : KeyCache := ⟨⟨.empty, none, none⟩, none⟩

/-- The await points of key_for, through refresh_if_needed and refresh. -/
inductive Phase where
  | checking
  | locking (forced : Bool)
  | timing (forced : Bool)
  | considering (forced : Bool) (now : Nat)
  | marking (now : Nat)
  | resolving (forced : Bool) (now : Nat)
  | discovering (forced : Bool) (now : Nat)
  | fetching (forced : Bool) (now : Nat) (jwksUri : String)
  | installing (forced : Bool) (now : Nat) (jwksUri : String) (keys : FiniteMap String CachedKey)
  | reading (forced : Bool)

def Phase.inside : Phase → Bool
  | checking | locking _ | reading _ => false
  | _ => true

structure Call where
  kid : String
  phase : Phase

/-- A refresh that starts its I/O, with the time it was admitted at, or that
succeeds. -/
inductive Deed where
  | io (forced : Bool) (admitted : Nat)
  | success (admitted : Nat) (jwksUri : String) (keys : FiniteMap String CachedKey)

structure Return where
  kid : String
  cache : KeyCache
  result : Except JwksError CachedKey

/-- The cache, the clock, the holder of the refresh lock, and what has been done:
what was installed when the lock was taken last, and the deeds, latest first. -/
structure Shared where
  cache : KeyCache
  clock : Nat
  holder : Option Nat
  atLock : Installed
  history : List Deed

structure State extends Shared where
  calls : Nat → Option Call
  returned : List Return

def State.init : State := ⟨⟨.default, 0, none, KeyCache.default.toInstalled, []⟩, fun _ => none, []⟩

inductive Event where
  | start (call : Nat) (kid : String)
  | go (call : Nat)
  | discovered (call : Nat) (answer : Except JwksError String)
  | fetched (call : Nat) (answer : Except JwksError (List Jwk))
  | cancel (call : Nat)
  | tick (duration : Nat)

namespace State
variable (s : State) (i : Nat)

def set (call : Option Call) : State := { s with calls := Function.update s.calls i call }

def move (kid : String) (phase : Phase) : State := s.set i (some ⟨kid, phase⟩)

def release : State := { s with holder := none }

def finish (kid : String) (result : Except JwksError CachedKey) : State :=
  { s.set i none with returned := ⟨kid, s.cache, result⟩ :: s.returned }

end State

section Steps
variable (refreshAfter : Nat)

/-- The first look of refresh_if_needed. -/
def stale (cache : KeyCache) (now : Nat) : Bool := cache.fetchedAt.all fun fetched => refreshAfter ≤ now - fetched

/-- The check under the refresh lock. -/
def admitted (cache : KeyCache) (forced : Bool) (now : Nat) : Bool :=
  if forced then cache.lastForcedRefresh.all fun last => forcedRefreshInterval ≤ now - last
  else cache.fetchedAt.all fun fetched => refreshAfter ≤ now - fetched

def go (s : State) (i : Nat) (kid : String) : Phase → Option State
  | .checking => some (s.move i kid (if stale refreshAfter s.cache s.clock then .locking false else .reading false))
  | .locking forced =>
    if s.holder = none then
      some { s.move i kid (.timing forced) with holder := some i, atLock := s.cache.toInstalled }
    else none
  | .timing forced => some (s.move i kid (.considering forced s.clock))
  | .considering forced now =>
    if admitted refreshAfter s.cache forced now then
      some (s.move i kid (if forced then .marking now else .resolving forced now))
    else some (s.release.move i kid (.reading forced))
  | .marking now =>
    some { s.move i kid (.resolving true now) with cache := { s.cache with lastForcedRefresh := some now } }
  -- the read guard lives through discovery, but whoever would write waits for the lock
  | .resolving forced now =>
    some { s.move i kid (match s.cache.jwksUri with
        | some uri => .fetching forced now uri
        | none => .discovering forced now) with
      history := .io forced now :: s.history }
  | .installing forced now uri keys =>
    some { s.release.move i kid (.reading forced) with
      cache := { s.cache with keys := keys, fetchedAt := some now, jwksUri := some uri }
      history := .success now uri keys :: s.history }
  | .reading forced =>
    match s.cache.keys.get kid with
    | some key => some (s.finish i kid (.ok key))
    | none => some (if forced then s.finish i kid (.error .notFound) else s.move i kid (.locking true))
  | .discovering _ _ => none
  | .fetching _ _ _ => none

def discovered (s : State) (i : Nat) (kid : String) (answer : Except JwksError String) : Phase → Option State
  | .discovering forced now =>
    match answer with
    | .ok uri => some (s.move i kid (.fetching forced now uri))
    | .error error => some (s.release.finish i kid (.error error))
  | _ => none

def fetched (s : State) (i : Nat) (kid : String) (answer : Except JwksError (List Jwk)) : Phase → Option State
  | .fetching forced now uri =>
    match answer with
    | .ok jwks => some (s.move i kid (.installing forced now uri (keySet jwks)))
    | .error error => some (s.release.finish i kid (.error error))
  | _ => none

/-- A dropped future gives up the lock it holds. -/
def cancel (s : State) (i : Nat) (phase : Phase) : State := (if phase.inside then s.release else s).set i none

def step (s : State) : Event → Option State
  | .start i kid => if (s.calls i).isNone then some (s.move i kid .checking) else none
  | .go i => (s.calls i).bind fun call => go refreshAfter s i call.kid call.phase
  | .discovered i answer => (s.calls i).bind fun call => discovered s i call.kid answer call.phase
  | .fetched i answer => (s.calls i).bind fun call => fetched s i call.kid answer call.phase
  | .cancel i => (s.calls i).map fun call => cancel s i call.phase
  | .tick duration => some { s with clock := s.clock + duration }

def machine : Machine State Event := ⟨step refreshAfter⟩

end Steps

example : (cacheableKey ⟨some .signature, none, some "ec", none, .ellipticCurve .p384, []⟩).map (·.2.algorithm) =
    some .es384 := by decide

end Srh.Adapters.HttpJwks
