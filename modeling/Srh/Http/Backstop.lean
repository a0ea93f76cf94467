import Srh.Config
import Srh.Adapters.FredTiming

/-! The HTTP timeout of http/mod.rs against the waits of one request: its body, its
permit, its Redis round trips and a forced reset. -/
namespace Srh.Http.Backstop
open Srh.Lib Srh.Domain Srh.Ports Adapters.FredExecutor Adapters.FredTiming

variable (debug : RespValue → String) (server : ServerConfig) (pool : PoolConfig)

/-- A request that runs the operation may wait this long inside the timeout layer. -/
def Waits (operation : Operation) (t : Nat) : Prop :=
  ∃ body acquire redis, body ≤ server.load.bodyReadTimeoutMs ∧ acquire ≤ pool.acquireTimeoutMs ∧
    OperationLasts debug pool.commandTimeoutMs operation redis ∧ t = body + acquire + redis

def waitBound (operation : Operation) : Nat :=
  server.load.bodyReadTimeoutMs + pool.acquireTimeoutMs + rounds operation * pool.commandTimeoutMs +
    pool.commandTimeoutMs

/-- The sum of the bounds is the longest wait, not only a bound on it. -/
theorem waits_isGreatest {operation : Operation} (hn : operation.commands ≠ []) :
    IsGreatest {t | Waits debug server pool operation t} (waitBound server pool operation) := by
  obtain ⟨hmem, hle⟩ := operationLasts_isGreatest debug pool.commandTimeoutMs hn
  rw [Nat.succ_mul] at hmem hle
  constructor
  · exact ⟨_, _, _, le_rfl, le_rfl, hmem, by rw [waitBound]; omega⟩
  · rintro t ⟨body, acquire, redis, hb, ha, hr, rfl⟩
    have := hle hr
    rw [waitBound]
    omega

/-- No wait of the operation reaches the timeout exactly when the sum stays below it. -/
theorem waits_lt_iff {operation : Operation} (hn : operation.commands ≠ []) {limit : Nat} :
    (∀ t, Waits debug server pool operation t → t < limit) ↔ waitBound server pool operation < limit := by
  obtain ⟨hmem, hle⟩ := waits_isGreatest debug server pool hn
  exact ⟨fun h => h _ hmem, fun h t ht => (hle ht).trans_lt h⟩

/-- No endpoint awaits more round trips than a transaction of as many commands. -/
theorem rounds_le {operation : Operation} {n : Nat} (hn : operation.commands.length ≤ n) : rounds operation ≤ n + 2 := by
  cases operation with
  | execute command => exact Nat.le_add_left 1 (n + 1)
  | pipeline commands => exact Nat.le_add_left 1 (n + 1)
  | transaction commands => exact Nat.add_le_add_right hn 2

/-- Over all batch sizes the largest transaction decides. -/
theorem batches_lt_iff {limit : Nat} (hmax : server.maxPipelineCommands ≠ 0) :
    (∀ operation : Operation, 1 ≤ operation.commands.length →
        operation.commands.length ≤ server.maxPipelineCommands → ∀ t, Waits debug server pool operation t → t < limit) ↔
      server.load.bodyReadTimeoutMs + pool.acquireTimeoutMs +
        (server.maxPipelineCommands + 3) * pool.commandTimeoutMs < limit := by
  have hsum : ∀ k, k * pool.commandTimeoutMs + pool.commandTimeoutMs = (k + 1) * pool.commandTimeoutMs :=
    fun k => (Nat.succ_mul k _).symm
  constructor
  · intro h
    let largest := List.replicate server.maxPipelineCommands (⟨"GET", []⟩ : RedisCommand)
    have hl : largest.length = server.maxPipelineCommands := List.length_replicate
    have hpos : 1 ≤ (Operation.transaction largest).commands.length := hl ▸ Nat.one_le_iff_ne_zero.mpr hmax
    have hw := (waits_lt_iff debug server pool (List.ne_nil_of_length_pos hpos)).mp
      (h (.transaction largest) hpos hl.le)
    rw [waitBound, rounds, hl, Nat.add_assoc, hsum] at hw
    exact hw
  · intro h operation hpos hle
    apply (waits_lt_iff debug server pool (List.ne_nil_of_length_pos hpos)).mpr
    rw [waitBound, Nat.add_assoc, hsum]
    refine lt_of_le_of_lt ?_ h
    exact Nat.add_le_add_left (Nat.mul_le_mul_right _ (Nat.add_le_add_right (rounds_le hle) 1)) _

/-- No request on any pool, of any admitted batch size, may wait as long as the HTTP
timeout. -/
def Clear (config : Config) : Prop :=
  ∀ name pool, config.pools.get name = some pool →
    ∀ operation : Operation, 1 ≤ operation.commands.length →
      operation.commands.length ≤ config.server.maxPipelineCommands →
      ∀ t, Waits debug config.server pool operation t → t < config.server.httpTimeoutMs

/-- The HTTP timeout of an accepted configuration cannot fire during the Redis work
of any request exactly when it exceeds, on every pool, the waits of the largest
transaction. -/
theorem backstop_clear_iff (parsers : Parsers) (config : Config) (hv : config.validate parsers = .ok ()) :
    Clear debug config ↔
      ∀ name pool, config.pools.get name = some pool →
        config.server.load.bodyReadTimeoutMs + pool.acquireTimeoutMs +
            (config.server.maxPipelineCommands + 3) * pool.commandTimeoutMs <
          config.server.httpTimeoutMs := by
  have hmax := Config.validate_maxPipelineCommands hv
  constructor
  · intro h name pool hp
    exact (batches_lt_iff debug config.server pool hmax).mp (h name pool hp)
  · intro h name pool hp
    exact (batches_lt_iff debug config.server pool hmax).mpr (h name pool hp)

def envPool : PoolConfig := .new "redis://localhost:6379" 3 2000 500 none none

def envConfig : Config := .fromEnvMode (Vector.replicate 32 0) "redis://localhost:6379" none

def patientConfig : Config :=
  { envConfig with server := { ServerConfig.default with maxPipelineCommands := 1, httpTimeoutMs := 10501 } }

theorem backstop_clear_iff_patient : Clear (fun _ => "") patientConfig := by
  apply (backstop_clear_iff (fun _ => "") lenient patientConfig rfl).mpr
  intro name pool hp
  obtain ⟨-, rfl⟩ | ⟨-, hp⟩ := FiniteMap.get_insert_some.mp hp
  · decide
  · cases hp

/-- The built-in timeouts pass validation, yet a transaction of one command may wait
longer than the HTTP timeout. -/
theorem default_transaction_outlasts_backstop :
    envConfig.validate lenient = .ok () ∧ envConfig.pools.get "default" = some envPool ∧
      Waits (fun _ => "") envConfig.server envPool (.transaction [⟨"SET", []⟩]) 10500 ∧
      envConfig.server.httpTimeoutMs = 10000 ∧ ¬ Clear (fun _ => "") envConfig := by
  have hn : (Operation.transaction [⟨"SET", []⟩]).commands ≠ [] := List.cons_ne_nil _ _
  have hw : Waits (fun _ => "") envConfig.server envPool (.transaction [⟨"SET", []⟩]) 10500 :=
    (waits_isGreatest (fun _ => "") envConfig.server envPool hn).1
  refine ⟨rfl, rfl, hw, rfl, ?_⟩
  intro h
  have := h "default" envPool rfl (.transaction [⟨"SET", []⟩]) (by decide) (by decide) 10500 hw
  exact absurd this (by decide)

end Srh.Http.Backstop
