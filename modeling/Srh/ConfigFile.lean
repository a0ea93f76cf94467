import Mathlib.Data.Finset.Dedup
import Mathlib.Data.Finset.Lattice.Basic
import Srh.Config
import Srh.Domain.Convert
import Srh.Lib.Collect

/-! The new configuration format of config.rs: token keys, pools and permissions
as they are written, and their normalisation. SHA-256 is a parameter. -/
namespace Srh
open Srh.Lib Srh.Domain

structure RawStaticTokenConfig where
  pool : String
  readOnly : Bool
  allowedCommands : Option (List String)
  blockedCommands : List String
  allowedScriptSha256 : List String
  keyPrefix : Option String
  deriving DecidableEq, Repr

structure RawPoolConfig where
  connectionString : String
  maxConnections : Nat
  commandTimeoutMs : Nat
  acquireTimeoutMs : Nat
  maxWaiters : Option Nat
  breaker : BreakerConfig
  allowedScriptSha256 : List String
  deriving DecidableEq, Repr

structure RawAuthConfig where
  jwt : Option JwtConfig
  staticTokens : FiniteMap String RawStaticTokenConfig

/-- A deserialized document. The sections that are taken over field by field have
their normalised types. -/
structure RawConfig where
  server : ServerConfig
  auth : RawAuthConfig
  pools : FiniteMap String RawPoolConfig

def hexNibble (byte : UInt8) : Option UInt8 :=
  if 48 ≤ byte ∧ byte ≤ 57 then some (byte - 48)
  else if 97 ≤ byte ∧ byte ≤ 102 then some (byte - 97 + 10)
  else if 65 ≤ byte ∧ byte ≤ 70 then some (byte - 65 + 10)
  else none

def hexPairs : Bytes → Except ConfigError Bytes
  | first :: second :: rest =>
    match hexNibble first, hexNibble second with
    | some high, some low => (hexPairs rest).map ((high <<< 4 ||| low) :: ·)
    | _, _ => invalid "sha256 token keys must contain only hex"
  | _ => .ok []

section Digests
variable (sha256 : Bytes → Digest)

def digestToken (token : String) : Digest := sha256 (Convert.utf8Bytes token)

def parseConfiguredDigest (token : String) : Except ConfigError Digest :=
  match "sha256:".toList.isPrefixOf? token.toList with
  | none => .ok (digestToken sha256 token)
  | some hex =>
    let bytes := Convert.utf8Bytes (String.ofList hex)
    if bytes.length ≠ 64 then invalid "sha256 token keys must contain exactly 64 hex characters"
    else (hexPairs bytes).map fun digest => Vector.ofFn fun i => digest.getD i 0

/-- A digest key is read from the bytes after its mark. -/
theorem parseConfiguredDigest_key (hex : String) :
    parseConfiguredDigest sha256 ("sha256:" ++ hex) =
      if (Convert.utf8Bytes hex).length ≠ 64 then invalid "sha256 token keys must contain exactly 64 hex characters"
      else (hexPairs (Convert.utf8Bytes hex)).map fun digest => Vector.ofFn fun i => digest.getD i 0 := by
  have hmark : "sha256:".toList.isPrefixOf? ("sha256:" ++ hex).toList = some hex.toList :=
    List.isPrefixOf?_eq_some_iff_append_eq.mpr String.toList_append.symm
  rw [parseConfiguredDigest, hmark]
  dsimp only
  rw [String.ofList_toList]

end Digests

def digestHex (digest : Digest) : String :=
  String.ofList (digest.toList.flatMap fun b => [Ascii.hexDigit (b.toNat / 16), Ascii.hexDigit (b.toNat % 16)])

def uppercaseSet (values : List String) : Finset String := (values.map Ascii.toUppercase).toFinset

def lowercaseSet (values : List String) : Finset String := (values.map Ascii.lowercaseText).toFinset

def RawStaticTokenConfig.normalize (entry : RawStaticTokenConfig) : StaticTokenConfig where
  pool := entry.pool
  readOnly := entry.readOnly
  legacy := false
  allowedCommands := entry.allowedCommands.map uppercaseSet
  blockedCommands := uppercaseSet entry.blockedCommands
  allowedScriptSha256 := lowercaseSet entry.allowedScriptSha256
  keyPrefix := entry.keyPrefix

def RawPoolConfig.normalize (pool : RawPoolConfig) : PoolConfig :=
  { PoolConfig.new pool.connectionString pool.maxConnections pool.commandTimeoutMs pool.acquireTimeoutMs
      (pool.maxWaiters.or (checked (pool.maxConnections * 4))) (some pool.breaker) with
    allowedScriptSha256 := lowercaseSet pool.allowedScriptSha256 }

def StaticTokenConfig.inheritScripts (pools : FiniteMap String PoolConfig) (token : StaticTokenConfig) :
    StaticTokenConfig :=
  match pools.get token.pool with
  | none => token
  | some pool => { token with allowedScriptSha256 := token.allowedScriptSha256 ∪ pool.allowedScriptSha256 }

section Normalise
variable (sha256 : Bytes → Digest)

def entryDigest (entry : String × RawStaticTokenConfig) : Except ConfigError Digest :=
  parseConfiguredDigest sha256 entry.1

def entryToken (entry : String × RawStaticTokenConfig) : StaticTokenConfig := entry.2.normalize

def RawConfig.normalPools (raw : RawConfig) : FiniteMap String PoolConfig := raw.pools.mapVal RawPoolConfig.normalize

/-- The order is the one in which the map of static tokens is iterated. -/
def Config.fromNewValue (raw : RawConfig) (order : List (String × RawStaticTokenConfig)) : Except ConfigError Config := do
  let staticTokens ← collect (entryDigest sha256) entryToken order
  .ok {
    server := raw.server
    auth := ⟨raw.auth.jwt, staticTokens.mapVal (·.inheritScripts raw.normalPools)⟩
    pools := raw.normalPools }

def SameTokens : Except ConfigError Config → Except ConfigError Config → Prop
  | .error d, .error e => d = e
  | .ok a, .ok b => ∀ digest, a.auth.staticTokens.get digest = b.auth.staticTokens.get digest
  | _, _ => False

/-- Malformed keys fail alike; without any, the keys of one digest have the same
permissions once the scripts of their pool are added. -/
def RawConfig.Consistent (raw : RawConfig) : Prop :=
  Unambiguous (entryDigest sha256) entryToken (·.inheritScripts raw.normalPools) raw.auth.staticTokens.toList

private theorem sameTokens_iff {raw : RawConfig} {o o' : List (String × RawStaticTokenConfig)} :
    SameTokens (Config.fromNewValue sha256 raw o) (Config.fromNewValue sha256 raw o') ↔
      SameEntries (·.inheritScripts raw.normalPools) (collect (entryDigest sha256) entryToken o)
        (collect (entryDigest sha256) entryToken o') := by
  rw [Config.fromNewValue, Config.fromNewValue]
  generalize collect (entryDigest sha256) entryToken o = x
  generalize collect (entryDigest sha256) entryToken o' = y
  cases x with
  | error d => cases y <;> exact Iff.rfl
  | ok m =>
    cases y with
    | error e => exact Iff.rfl
    | ok n =>
      have hget : ∀ (m : FiniteMap Digest StaticTokenConfig) (digest : Digest),
          (m.mapVal (·.inheritScripts raw.normalPools)).get digest = (m.get digest).map (·.inheritScripts raw.normalPools) :=
        fun m digest => FiniteMap.get_mapVal _ m digest
      simp only [← hget, SameEntries]
      exact Iff.rfl

/-- Normalisation is independent of the iteration order exactly for consistent
documents. -/
theorem fromNewValue_orderFree_iff (raw : RawConfig) :
    (∀ o o', o.Perm raw.auth.staticTokens.toList → o'.Perm raw.auth.staticTokens.toList →
      SameTokens (Config.fromNewValue sha256 raw o) (Config.fromNewValue sha256 raw o')) ↔ raw.Consistent sha256 := by
  simp only [sameTokens_iff]
  exact orderFree_iff

/-- Without malformed keys the last entry decides for its digest. -/
theorem fromNewValue_last (raw : RawConfig) {o : List (String × RawStaticTokenConfig)} {entry : String × RawStaticTokenConfig}
    {digest : Digest} (h : ∀ e ∈ o ++ [entry], ∃ d, entryDigest sha256 e = .ok d) (hd : entryDigest sha256 entry = .ok digest) :
    ∃ config, Config.fromNewValue sha256 raw (o ++ [entry]) = .ok config ∧
      config.auth.staticTokens.get digest = some ((entryToken entry).inheritScripts raw.normalPools) := by
  obtain ⟨tokens, ht⟩ := collect_ok entryToken h
  refine ⟨_, bind_eq_ok.mpr ⟨tokens, ht, rfl⟩, ?_⟩
  rw [FiniteMap.get_mapVal, get_collect_last ht hd]
  rfl

end Normalise

def spelling (c : Char) : String := "sha256:" ++ String.ofList (List.replicate 64 c)

def readingCache (readOnly : Bool) : RawStaticTokenConfig := ⟨"cache", readOnly, none, [], [], none⟩

def twoSpellings : RawConfig where
  server := .default
  auth := ⟨none, (FiniteMap.empty.insert (spelling 'a') (readingCache true)).insert (spelling 'A') (readingCache false)⟩
  pools := FiniteMap.empty.insert "cache" ⟨"redis://localhost:6379", 3, 2000, 500, none, .default, []⟩

private theorem hexPairs_replicate {byte value : UInt8} (h : hexNibble byte = some value) (n : Nat) :
    hexPairs (List.replicate (2 * n) byte) = .ok (List.replicate n (value <<< 4 ||| value)) := by
  induction n with
  | zero => rfl
  | succ n ih =>
    rw [Nat.mul_succ, List.replicate_succ, List.replicate_succ, hexPairs, h]
    dsimp only
    rw [ih]
    rfl

theorem entryDigest_spelling (sha256 : Bytes → Digest) (token : RawStaticTokenConfig) {c : Char} (hc : c ∈ ['a', 'A']) :
    entryDigest sha256 (spelling c, token) = .ok (Vector.replicate 32 0xAA) := by
  have hdigit : c.toNat < 128 ∧ hexNibble (UInt8.ofNat c.toNat) = some 10 := by
    rcases List.mem_pair.mp hc with rfl | rfl <;> exact ⟨by decide, rfl⟩
  have hbytes : Convert.utf8Bytes (String.ofList (List.replicate 64 c)) = List.replicate (2 * 32) (UInt8.ofNat c.toNat) := by
    rw [Convert.utf8Bytes, Utf8.toUTF8_ascii, Ascii.bytes, String.toList_ofList, List.map_replicate]
    intro d hd
    rw [String.toList_ofList] at hd
    rw [List.eq_of_mem_replicate hd]
    exact hdigit.1
  change parseConfiguredDigest sha256 ("sha256:" ++ String.ofList (List.replicate 64 c)) = _
  rw [parseConfiguredDigest_key, hbytes, List.length_replicate, if_neg (not_not.mpr rfl), hexPairs_replicate hdigit.2]
  refine congrArg Except.ok (Vector.ext fun i hi => ?_)
  rw [Vector.getElem_ofFn, Vector.getElem_replicate, List.getD_eq_getElem?_getD, List.getElem?_replicate, if_pos hi]
  rfl

private theorem entryDigest_spellings (sha256 : Bytes → Digest) {o : List (String × RawStaticTokenConfig)}
    (ho : o.Perm twoSpellings.auth.staticTokens.toList) {entry : String × RawStaticTokenConfig} (h : entry ∈ o) :
    entryDigest sha256 entry = .ok (Vector.replicate 32 0xAA) := by
  rcases List.mem_pair.mp (ho.mem_iff.mp h) with rfl | rfl
  · exact entryDigest_spelling sha256 _ (by decide)
  · exact entryDigest_spelling sha256 _ (by decide)

/-- Whichever spelling comes last decides whether the token may write. No key of
the document is hashed, so any function does. -/
theorem fromNewValue_twoSpellings :
    ∃ o o' a b, o.Perm twoSpellings.auth.staticTokens.toList ∧ o'.Perm twoSpellings.auth.staticTokens.toList ∧
      Config.fromNewValue (fun _ => Vector.replicate 32 0) twoSpellings o = .ok a ∧
      Config.fromNewValue (fun _ => Vector.replicate 32 0) twoSpellings o' = .ok b ∧
      (a.auth.staticTokens.get (Vector.replicate 32 0xAA)).map StaticTokenConfig.readOnly = some true ∧
      (b.auth.staticTokens.get (Vector.replicate 32 0xAA)).map StaticTokenConfig.readOnly = some false := by
  have ho : [(spelling 'A', readingCache false)] ++ [(spelling 'a', readingCache true)] =
      twoSpellings.auth.staticTokens.toList := rfl
  have ho' : ([(spelling 'a', readingCache true)] ++ [(spelling 'A', readingCache false)]).Perm
      twoSpellings.auth.staticTokens.toList := by
    rw [← ho]
    exact List.perm_append_comm
  have hlast : ∀ {o : List (String × RawStaticTokenConfig)} {entry : String × RawStaticTokenConfig},
      (o ++ [entry]).Perm twoSpellings.auth.staticTokens.toList →
      ∃ config, Config.fromNewValue (fun _ => Vector.replicate 32 0) twoSpellings (o ++ [entry]) = .ok config ∧
        config.auth.staticTokens.get (Vector.replicate 32 0xAA) =
          some ((entryToken entry).inheritScripts twoSpellings.normalPools) := fun ho =>
    fromNewValue_last _ twoSpellings (fun e he => ⟨_, entryDigest_spellings _ ho he⟩)
      (entryDigest_spellings _ ho (List.mem_append_right _ (List.mem_singleton_self _)))
  obtain ⟨a, ha, hta⟩ := hlast (.of_eq ho)
  obtain ⟨b, hb, htb⟩ := hlast ho'
  refine ⟨_, _, a, b, .of_eq ho, ho', ha, hb, ?_, ?_⟩
  · rw [hta]
    rfl
  · rw [htb]
    rfl

end Srh
