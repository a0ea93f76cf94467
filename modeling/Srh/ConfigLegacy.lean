import Srh.ConfigFile
import Srh.Lib.Settle

/-! The legacy configuration format of config.rs: one entry for each token, which
names its pool or gets one named after its digest. -/
namespace Srh
open Srh.Lib Srh.Domain

structure RawLegacyToken where
  srhId : Option String
  connectionString : String
  maxConnections : Nat
  deriving DecidableEq, Repr

def digestPrefix (digest : Digest) : String := String.ofList ((digestHex digest).toList.take 8)

def sameLegacyPool (left right : PoolConfig) : Bool :=
  left.connectionString = right.connectionString ∧ left.maxConnections = right.maxConnections

section Entries
variable (sha256 : Bytes → Digest) (entry : String × RawLegacyToken)

/-- An empty srh_id is none. -/
def legacyPool : String :=
  (entry.2.srhId.filter (· ≠ "")).getD (digestPrefix (digestToken sha256 entry.1))

def legacyCandidate : PoolConfig := .new entry.2.connectionString entry.2.maxConnections 2000 500 none none

def legacyConflict : ConfigError :=
  let pool := legacyPool sha256 entry
  .validation s!"legacy srh_id '{pool}' has conflicting pool definitions"

def legacyStep (maps : FiniteMap Digest StaticTokenConfig × FiniteMap String PoolConfig) :
    Except ConfigError (FiniteMap Digest StaticTokenConfig × FiniteMap String PoolConfig) :=
  let pool := legacyPool sha256 entry
  let candidate := legacyCandidate entry
  let staticTokens := maps.1.insert (digestToken sha256 entry.1) (defaultToken pool true)
  match maps.2.get pool with
  | some existing =>
    if sameLegacyPool existing candidate then .ok (staticTokens, maps.2) else .error (legacyConflict sha256 entry)
  | none => .ok (staticTokens, maps.2.insert pool candidate)

end Entries

section Loop
variable (sha256 : Bytes → Digest)

/-- The order is the one in which the map of entries is iterated. -/
def Config.fromLegacyEntries (order : List (String × RawLegacyToken)) : Except ConfigError Config := do
  let maps ← order.foldlM (fun maps entry => legacyStep sha256 entry maps) (FiniteMap.empty, FiniteMap.empty)
  .ok { server := .default, auth := ⟨none, maps.1⟩, pools := maps.2 }

/-- Two entries of one pool name it differently. -/
def LegacyConflict (entries : List (String × RawLegacyToken)) : Prop :=
  ∃ a ∈ entries, ∃ b ∈ entries, legacyPool sha256 a = legacyPool sha256 b ∧
    (a.2.connectionString ≠ b.2.connectionString ∨ a.2.maxConnections ≠ b.2.maxConnections)

def legacyTokens (order : List (String × RawLegacyToken)) (tokens : FiniteMap Digest StaticTokenConfig) :
    FiniteMap Digest StaticTokenConfig :=
  order.foldl (fun tokens entry =>
    tokens.insert (digestToken sha256 entry.1) (defaultToken (legacyPool sha256 entry) true)) tokens

/-- The loop settles the pools, and keeps a token for each digest beside them. -/
theorem foldlM_legacyStep (order : List (String × RawLegacyToken)) (tokens : FiniteMap Digest StaticTokenConfig)
    (pools : FiniteMap String PoolConfig) :
    order.foldlM (fun maps entry => legacyStep sha256 entry maps) (tokens, pools) =
      (order.foldlM (settle (legacyPool sha256) legacyCandidate sameLegacyPool (legacyConflict sha256)) pools).map
        fun settled => (legacyTokens sha256 order tokens, settled) := by
  induction order generalizing tokens pools with
  | nil => rfl
  | cons entry order ih =>
    rw [List.foldlM_cons, List.foldlM_cons, legacyTokens, List.foldl_cons, legacyStep, settle]
    cases pools.get (legacyPool sha256 entry) with
    | none => exact ih _ _
    | some existing =>
      dsimp only
      by_cases hsame : sameLegacyPool existing (legacyCandidate entry) = true
      · rw [if_pos hsame, if_pos hsame]
        exact ih _ _
      · rw [if_neg hsame, if_neg hsame]
        rfl

private theorem fromLegacyEntries_eq_ok {order : List (String × RawLegacyToken)} {config : Config} :
    Config.fromLegacyEntries sha256 order = .ok config ↔
      ∃ pools, order.foldlM (settle (legacyPool sha256) legacyCandidate sameLegacyPool (legacyConflict sha256)) .empty = .ok pools ∧
        config = { server := .default, auth := ⟨none, legacyTokens sha256 order .empty⟩, pools := pools } := by
  rw [Config.fromLegacyEntries, foldlM_legacyStep, bind_eq_ok]
  constructor
  · rintro ⟨maps, hmaps, hconfig⟩
    cases hp : order.foldlM (settle (legacyPool sha256) legacyCandidate sameLegacyPool (legacyConflict sha256)) .empty with
    | error e =>
      rw [hp] at hmaps
      cases hmaps
    | ok pools =>
      rw [hp] at hmaps
      cases hmaps
      exact ⟨pools, rfl, (Except.ok.inj hconfig).symm⟩
  · rintro ⟨pools, hp, rfl⟩
    exact ⟨(legacyTokens sha256 order .empty, pools), by rw [hp]; rfl, rfl⟩

end Loop

section Pools
variable {sha256 : Bytes → Digest} {order : List (String × RawLegacyToken)}

private theorem legacyCandidate_eq_iff {a b : String × RawLegacyToken} :
    legacyCandidate a = legacyCandidate b ↔
      a.2.connectionString = b.2.connectionString ∧ a.2.maxConnections = b.2.maxConnections := by
  constructor
  · intro h
    exact ⟨congrArg PoolConfig.connectionString h, congrArg PoolConfig.maxConnections h⟩
  · rintro ⟨hc, hm⟩
    rw [legacyCandidate, legacyCandidate, hc, hm]

/-- What is compared decides the whole pool. -/
theorem sameLegacyPool_iff (a b : String × RawLegacyToken) :
    sameLegacyPool (legacyCandidate a) (legacyCandidate b) = true ↔ legacyCandidate a = legacyCandidate b := by
  rw [legacyCandidate_eq_iff, sameLegacyPool, decide_eq_true_iff]
  exact Iff.rfl

private theorem agreeing_iff : Agreeing (legacyPool sha256) legacyCandidate order ↔ ¬ LegacyConflict sha256 order := by
  constructor
  · rintro h ⟨a, ha, b, hb, hk, hne⟩
    obtain ⟨hc, hm⟩ := legacyCandidate_eq_iff.mp (h a ha b hb hk)
    exact hne.elim (absurd hc) (absurd hm)
  · intro h a ha b hb hk
    by_contra hne
    refine h ⟨a, ha, b, hb, hk, ?_⟩
    by_contra hsame
    rw [not_or, not_not, not_not] at hsame
    exact hne (legacyCandidate_eq_iff.mpr hsame)

private theorem fromLegacyEntries_ok_iff :
    (∃ config, Config.fromLegacyEntries sha256 order = .ok config) ↔ ¬ LegacyConflict sha256 order := by
  rw [← agreeing_iff, ← settle_ok_iff sameLegacyPool_iff]
  simp only [fromLegacyEntries_eq_ok]
  constructor
  · rintro ⟨config, pools, hp, -⟩
    exact ⟨pools, hp⟩
  · rintro ⟨pools, hp⟩
    exact ⟨_, pools, hp, rfl⟩

end Pools

section Documents
variable {sha256 : Bytes → Digest} {entries : FiniteMap String RawLegacyToken} {order : List (String × RawLegacyToken)}

def DistinctDigests (sha256 : Bytes → Digest) (entries : FiniteMap String RawLegacyToken) : Prop :=
  ∀ a ∈ entries.keys, ∀ b ∈ entries.keys, digestToken sha256 a = digestToken sha256 b → a = b

private theorem tokens_agreeing (h : DistinctDigests sha256 entries) (hp : order.Perm entries.toList) :
    Agreeing (fun entry : String × RawLegacyToken => digestToken sha256 entry.1)
      (fun entry => defaultToken (legacyPool sha256 entry) true) order := by
  rintro ⟨a, x⟩ ha ⟨b, y⟩ hb hd
  have hgeta := FiniteMap.mem_toList.mp (hp.mem_iff.mp ha)
  have hgetb := FiniteMap.mem_toList.mp (hp.mem_iff.mp hb)
  obtain rfl := h a (FiniteMap.mem_keys.mpr ⟨x, hgeta⟩) b (FiniteMap.mem_keys.mpr ⟨y, hgetb⟩) hd
  obtain rfl := Option.some.inj (hgeta.symm.trans hgetb)
  rfl

private theorem legacyTokens_filled (h : DistinctDigests sha256 entries) (hp : order.Perm entries.toList) :
    Filled (fun entry : String × RawLegacyToken => digestToken sha256 entry.1)
      (fun entry => defaultToken (legacyPool sha256 entry) true) order (legacyTokens sha256 order .empty) :=
  filled_foldl_insert (filled_empty _ _) (tokens_agreeing h hp)

/-- Legacy documents are read alike in every order. They are refused exactly for two
definitions of one pool, and every token of the others has the pool it declared. -/
theorem legacy_routes_tokens (sha256 : Bytes → Digest) (entries : FiniteMap String RawLegacyToken)
    (h : DistinctDigests sha256 entries) :
    (∀ order, order.Perm entries.toList →
      ((∃ config, Config.fromLegacyEntries sha256 order = .ok config) ↔ ¬ LegacyConflict sha256 entries.toList)) ∧
    (∀ order order' config config', order.Perm entries.toList → order'.Perm entries.toList →
      Config.fromLegacyEntries sha256 order = .ok config → Config.fromLegacyEntries sha256 order' = .ok config' →
      config.server = config'.server ∧ config.auth.jwt = config'.auth.jwt ∧
        (∀ digest, config.auth.staticTokens.get digest = config'.auth.staticTokens.get digest) ∧
        ∀ name, config.pools.get name = config'.pools.get name) ∧
    ∀ order config token entry, order.Perm entries.toList → Config.fromLegacyEntries sha256 order = .ok config →
      entries.get token = some entry →
      ∃ pool, config.auth.staticTokens.get (digestToken sha256 token) =
          some (defaultToken (legacyPool sha256 (token, entry)) true) ∧
        config.pools.get (legacyPool sha256 (token, entry)) = some pool ∧
        pool.connectionString = entry.connectionString ∧ pool.maxConnections = entry.maxConnections := by
  refine ⟨?_, ?_, ?_⟩
  · intro order hp
    rw [fromLegacyEntries_ok_iff, LegacyConflict, LegacyConflict]
    simp only [hp.mem_iff]
  · intro order order' config config' hp hp' hc hc'
    obtain ⟨pools, hs, rfl⟩ := (fromLegacyEntries_eq_ok sha256).mp hc
    obtain ⟨pools', hs', rfl⟩ := (fromLegacyEntries_eq_ok sha256).mp hc'
    refine ⟨rfl, rfl, ?_, ?_⟩
    · exact (legacyTokens_filled h hp).get_eq (legacyTokens_filled h hp') (hp.trans hp'.symm)
    · exact (filled_of_settle sameLegacyPool_iff hs).get_eq (filled_of_settle sameLegacyPool_iff hs') (hp.trans hp'.symm)
  · intro order config token entry hp hc hentry
    obtain ⟨pools, hs, rfl⟩ := (fromLegacyEntries_eq_ok sha256).mp hc
    have hmem : (token, entry) ∈ order := hp.mem_iff.mpr (FiniteMap.mem_toList.mpr hentry)
    refine ⟨legacyCandidate (token, entry), ?_, ?_, rfl, rfl⟩
    · exact (legacyTokens_filled h hp _ _).mpr ⟨(token, entry), hmem, rfl, rfl⟩
    · exact (filled_of_settle sameLegacyPool_iff hs _ _).mpr ⟨(token, entry), hmem, rfl, rfl⟩

def firstByte (token : Bytes) : Digest := Vector.replicate 32 (token.headD 0)

def threeTokens : FiniteMap String RawLegacyToken :=
  ((FiniteMap.empty.insert "a" ⟨some "main", "redis://one", 3⟩).insert "b" ⟨some "main", "redis://one", 3⟩).insert "c"
    ⟨some "", "redis://two", 3⟩

private theorem threeTokens_distinct : DistinctDigests firstByte threeTokens := by
  have hkeys : threeTokens.keys = ["c", "b", "a"] := rfl
  intro a ha b hb hd
  rw [hkeys, List.mem_cons, List.mem_pair] at ha hb
  rcases ha with rfl | rfl | rfl <;> rcases hb with rfl | rfl | rfl <;> first | rfl | exact absurd hd (by decide)

theorem legacy_routes_tokens_three :
    ∃ config, Config.fromLegacyEntries firstByte threeTokens.toList = .ok config ∧
      ∃ pool, config.auth.staticTokens.get (firstByte [99]) = some (defaultToken "63636363" true) ∧
        config.pools.get "63636363" = some pool ∧ pool.connectionString = "redis://two" := by
  obtain ⟨config, hc⟩ : ∃ config, Config.fromLegacyEntries firstByte threeTokens.toList = .ok config := ⟨_, rfl⟩
  obtain ⟨pool, htoken, hpool, hstring, -⟩ := (legacy_routes_tokens firstByte threeTokens threeTokens_distinct).2.2
    threeTokens.toList config "c" ⟨some "", "redis://two", 3⟩ (.refl _) hc rfl
  exact ⟨config, hc, pool, htoken, hpool, hstring⟩

end Documents
end Srh
