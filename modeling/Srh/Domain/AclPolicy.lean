import Srh.Domain.Acl

/-! What the layers of the command policy amount to: the conditions an admitted
command meets, that a wider identity only loosens them, and what no identity gets
past. -/
namespace Srh.Domain
open Srh.Lib Srh.Ports

/-- One identity is at most as permissive as another. -/
structure Identity.Narrower (i j : Identity) : Prop where
  readOnly : j.readOnly → i.readOnly
  isAdmin : i.isAdmin → j.isAdmin
  legacy : i.legacy → j.legacy
  blockedCommands : j.blockedCommands ⊆ i.blockedCommands
  allowedScriptSha256 : i.allowedScriptSha256 ⊆ j.allowedScriptSha256
  keyPrefix : j.keyPrefix.isSome → i.keyPrefix.isSome
  allowedCommands : (i.allowedCommands = none ∧ j.allowedCommands = none) ∨
    ∃ a b, i.allowedCommands = some a ∧ j.allowedCommands = some b ∧ a ⊆ b

private theorem Identity.Narrower.refl (i : Identity) : i.Narrower i where
  readOnly := id
  isAdmin := id
  legacy := id
  blockedCommands := Finset.Subset.refl _
  allowedScriptSha256 := Finset.Subset.refl _
  keyPrefix := id
  allowedCommands := by
    cases h : i.allowedCommands with
    | none => exact .inl ⟨rfl, rfl⟩
    | some a => exact .inr ⟨a, a, rfl, rfl, Finset.Subset.refl a⟩

private theorem Identity.Narrower.trans {i j k : Identity} (hij : i.Narrower j) (hjk : j.Narrower k) : i.Narrower k where
  readOnly h := hij.readOnly (hjk.readOnly h)
  isAdmin h := hjk.isAdmin (hij.isAdmin h)
  legacy h := hjk.legacy (hij.legacy h)
  blockedCommands := hjk.blockedCommands.trans hij.blockedCommands
  allowedScriptSha256 := hij.allowedScriptSha256.trans hjk.allowedScriptSha256
  keyPrefix h := hij.keyPrefix (hjk.keyPrefix h)
  allowedCommands := by
    rcases hij.allowedCommands with ⟨hi, hj⟩ | ⟨a, b, hi, hj, hab⟩
    · rcases hjk.allowedCommands with ⟨-, hk⟩ | ⟨b, c, hb, -, -⟩
      · exact .inl ⟨hi, hk⟩
      · cases hj.symm.trans hb
    · rcases hjk.allowedCommands with ⟨hn, -⟩ | ⟨b', c, hb, hk, hbc⟩
      · cases hj.symm.trans hn
      · cases hj.symm.trans hb
        exact .inr ⟨a, c, hi, hk, hab.trans hbc⟩

instance : Preorder Identity where
  le := Identity.Narrower
  le_refl := Identity.Narrower.refl
  le_trans _ _ _ := Identity.Narrower.trans

namespace Acl

def adminPairs : List (String × String) :=
  [("CONFIG", "GET"), ("CLIENT", "LIST"), ("CLIENT", "INFO"), ("SLOWLOG", "GET"), ("SLOWLOG", "LEN"),
    ("COMMAND", "COUNT"), ("COMMAND", "INFO"), ("COMMAND", "DOCS"), ("LATENCY", "HISTORY"), ("LATENCY", "LATEST"),
    ("MEMORY", "USAGE"), ("MEMORY", "STATS"), ("MEMORY", "DOCTOR"), ("ACL", "WHOAMI")]

/-- INFO with any argument, or a listed command whose first argument is the listed
subcommand in any case. -/
def AdminPair (name : String) (subcommand : Option Bytes) : Prop :=
  name = "INFO" ∨ ∃ value keyword, subcommand = some value ∧ (name, keyword) ∈ adminPairs ∧
    Ascii.eqIgnoreCase value (Ascii.bytes keyword)

private theorem adminPairs_ascii : ∀ pair ∈ adminPairs, ∀ c ∈ pair.2.toList, c.toNat < 128 := by
  have hall : (adminPairs.all fun pair => pair.2.toList.all fun c => c.toNat < 128) = true := by decide
  simpa only [List.all_eq_true, decide_eq_true_eq] using hall

/-- The gate reads the first argument as text. -/
theorem adminAllow_text {name : String} {subcommand : Option Bytes} (h : adminAllow name subcommand) :
    name = "INFO" ∨ ∃ value keyword, subcommand = some value ∧ (name, keyword) ∈ adminPairs ∧
      Ascii.toUppercase (Utf8.fromUtf8Lossy value) = keyword := by
  have listed : ∀ {name keyword : String}, (name, keyword) ∈ adminPairs →
      (subcommand.map fun value => Ascii.toUppercase (Utf8.fromUtf8Lossy value)) = some keyword →
      ∃ value keyword, subcommand = some value ∧ (name, keyword) ∈ adminPairs ∧
        Ascii.toUppercase (Utf8.fromUtf8Lossy value) = keyword := by
    intro name keyword hp hs
    obtain ⟨value, hv, ht⟩ := Option.map_eq_some_iff.mp hs
    exact ⟨value, keyword, hv, hp, ht⟩
  rw [adminAllow.eq_def] at h
  split at h
  case h_6 => exact .inl rfl
  case h_16 => cases h
  all_goals
    rename_i hs
    exact .inr (listed (by simp [adminPairs]) hs)

private theorem adminPair_of_adminAllow {name : String} {subcommand : Option Bytes} (h : adminAllow name subcommand) :
    AdminPair name subcommand := by
  rcases adminAllow_text h with rfl | ⟨value, keyword, rfl, hp, ht⟩
  · exact .inl rfl
  · exact .inr ⟨value, keyword, rfl, hp, Utf8.eqIgnoreCase_of_toUppercase (adminPairs_ascii _ hp) ht⟩

section Admitted
variable (sha256 : Bytes → Digest) (identity : Identity)

def adminAllowed (name : String) (command : RedisCommand) : Bool :=
  identity.isAdmin && adminAllow name command.args.head?

/-- A script body that may run: EVAL or EVAL_RO of an approved digest. -/
def ScriptApproved (name : String) (command : RedisCommand) : Prop :=
  (name = "EVAL" ∨ name = "EVAL_RO") ∧
    ∃ script, command.args.head? = some script ∧ hexDigest (sha256 script).toList ∈ identity.allowedScriptSha256

def ExplicitlyAllowed (name : String) : Prop := ∃ commands, identity.allowedCommands = some commands ∧ name ∈ commands

/-- What the layers require of a command under its upper-case name. -/
structure Admitted (name : String) (command : RedisCommand) : Prop where
  hardDeny : name ∈ Acl.hardDeny → adminAllowed identity name command
  scripting : name ∈ Acl.scripting → ScriptApproved sha256 identity name command
  blocking : name = "XREAD" ∨ name = "XREADGROUP" → mentions command "BLOCK" = false
  sorting : identity.keyPrefix.isSome → name = "SORT" ∨ name = "SORT_RO" →
    mentions command "BY" = false ∧ mentions command "GET" = false
  blocked : name ∉ identity.blockedCommands
  defaultBlock : identity.legacy = false → name ∈ Acl.defaultBlock →
    ExplicitlyAllowed identity name ∨ adminAllowed identity name command
  allowed : ∀ commands, identity.allowedCommands = some commands → name ∈ commands
  readOnly : identity.readOnly → name ∈ readCommands

end Admitted

section Characterise
variable {sha256 : Bytes → Digest} {identity : Identity} {name : String} {command : RedisCommand}

private theorem checkScripting_eq_ok : checkScripting sha256 identity name command = .ok () ↔
    (name ∈ scripting → ScriptApproved sha256 identity name command) := by
  rw [checkScripting]
  split
  · rename_i hn
    exact ⟨fun _ h => absurd h hn, fun _ => rfl⟩
  · rename_i hn
    rw [reject_eq_ok, not_or, Decidable.not_and_iff_not_or_not, Decidable.not_not, Decidable.not_not,
      forall_prop_of_true (Decidable.not_not.mp hn), ScriptApproved]
    cases hs : command.args.head? with
    | none => simp
    | some script =>
      simp only [reject_eq_ok, Decidable.not_not, and_true, Option.some.injEq, exists_eq_left']
      constructor
      · rintro ⟨⟨he, -⟩, hd⟩
        exact ⟨he, hd⟩
      · rintro ⟨he, hd⟩
        exact ⟨⟨he, Finset.ne_empty_of_mem hd⟩, hd⟩

private theorem explicitlyAllowed_iff :
    (identity.allowedCommands.any fun commands => name ∈ commands) = true ↔ ExplicitlyAllowed identity name := by
  simp [Option.any_eq_true, ExplicitlyAllowed]

private theorem allowlist_iff : (identity.allowedCommands.any fun commands => name ∉ commands) = false ↔
    ∀ commands, identity.allowedCommands = some commands → name ∈ commands := by
  simp [Option.any_eq_false]

private theorem checkName_eq_ok : checkName sha256 identity name command = .ok () ↔
    Admitted sha256 identity name command := by
  simp only [checkName, check_then, refuse_eq_ok, checkScripting_eq_ok, not_and, not_or, Bool.not_eq_true,
    Bool.not_eq_false, allowlist_iff, Decidable.not_not]
  constructor
  · rintro ⟨h1, h2, h3, h4, h5, h6, h7, h8⟩
    refine ⟨h1, h2, h3, h4, h5, ?_, h7, h8⟩
    intro hl hn
    by_cases he : ExplicitlyAllowed identity name
    · exact .inl he
    · exact .inr (h6 hl hn (Bool.eq_false_iff.mpr fun h => he (explicitlyAllowed_iff.mp h)))
  · rintro ⟨h1, h2, h3, h4, h5, h6, h7, h8⟩
    refine ⟨h1, h2, h3, h4, h5, ?_, h7, h8⟩
    intro hl hn he
    rcases h6 hl hn with h | h
    · rw [explicitlyAllowed_iff.mpr h] at he
      cases he
    · exact h

/-- A command is accepted exactly when it has a name and every layer admits it. -/
theorem check_eq_ok : check sha256 identity command = .ok () ↔
    command.name ≠ "" ∧ Admitted sha256 identity (Ascii.toUppercase command.name) command := by
  rw [check, reject_eq_ok, checkName_eq_ok]

end Characterise

section Monotone
variable {sha256 : Bytes → Digest} {i j : Identity} {name : String} {command : RedisCommand}

private theorem adminAllowed_mono (h : i ≤ j) (ha : adminAllowed i name command) : adminAllowed j name command := by
  rw [adminAllowed, Bool.and_eq_true] at ha ⊢
  exact ⟨h.isAdmin ha.1, ha.2⟩

private theorem ScriptApproved.mono (h : i ≤ j) (hs : ScriptApproved sha256 i name command) :
    ScriptApproved sha256 j name command := by
  obtain ⟨hn, script, hh, hd⟩ := hs
  exact ⟨hn, script, hh, h.allowedScriptSha256 hd⟩

private theorem ExplicitlyAllowed.mono (h : i ≤ j) (he : ExplicitlyAllowed i name) : ExplicitlyAllowed j name := by
  obtain ⟨commands, hc, hn⟩ := he
  rcases h.allowedCommands with ⟨hi, -⟩ | ⟨a, b, hi, hj, hab⟩
  · cases hi.symm.trans hc
  · cases hi.symm.trans hc
    exact ⟨b, hj, hab hn⟩

/-- Every layer looks at what a wider identity has more of, or less to forbid. -/
theorem Admitted.mono (h : i ≤ j) (ha : Admitted sha256 i name command) : Admitted sha256 j name command where
  hardDeny hn := adminAllowed_mono h (ha.hardDeny hn)
  scripting hn := (ha.scripting hn).mono h
  blocking := ha.blocking
  sorting hp := ha.sorting (h.keyPrefix hp)
  blocked hb := ha.blocked (h.blockedCommands hb)
  defaultBlock hl hn := by
    have hi : i.legacy = false := Bool.eq_false_iff.mpr fun hi => by
      rw [h.legacy hi] at hl
      cases hl
    exact (ha.defaultBlock hi hn).imp (·.mono h) (adminAllowed_mono h)
  allowed commands hc := by
    rcases h.allowedCommands with ⟨-, hj⟩ | ⟨a, b, hi, hj, hab⟩
    · cases hj.symm.trans hc
    · cases hj.symm.trans hc
      exact hab (ha.allowed a hi)
  readOnly hr := ha.readOnly (h.readOnly hr)

theorem check_mono (h : i ≤ j) (hc : check sha256 i command = .ok ()) : check sha256 j command = .ok () := by
  rw [check_eq_ok] at hc ⊢
  exact ⟨hc.1, hc.2.mono h⟩

end Monotone

section Confinement
variable {sha256 : Bytes → Digest} {identity : Identity} {command : RedisCommand}

/-- What no identity gets past, whatever it holds and however the command is
written. -/
structure Confined (sha256 : Bytes → Digest) (identity : Identity) (name : String) (command : RedisCommand) : Prop where
  hardDeny : name ∈ Acl.hardDeny → identity.isAdmin ∧ AdminPair name command.args.head?
  scripting : name ∈ Acl.scripting → (name = "EVAL" ∨ name = "EVAL_RO") ∧
    (∃ script, command.args.head? = some script ∧ hexDigest (sha256 script).toList ∈ identity.allowedScriptSha256) ∧
    identity.readOnly = false
  blocking : name = "XREAD" ∨ name = "XREADGROUP" →
    ∀ argument ∈ command.args, Ascii.eqIgnoreCase argument (Ascii.bytes "BLOCK") = false
  blocked : name ∉ identity.blockedCommands
  allowed : ∀ commands, identity.allowedCommands = some commands → name ∈ commands
  readOnly : identity.readOnly → name ∈ readCommands
  defaultBlock : identity.legacy = false → name ∈ Acl.defaultBlock →
    (∃ commands, identity.allowedCommands = some commands ∧ name ∈ commands) ∨
      (identity.isAdmin ∧ AdminPair name command.args.head?)

private theorem adminPair_of_adminAllowed {name : String} (h : adminAllowed identity name command) :
    identity.isAdmin ∧ AdminPair name command.args.head? := by
  rw [adminAllowed, Bool.and_eq_true] at h
  exact ⟨h.1, adminPair_of_adminAllow h.2⟩

/-- No scripting command is a read command. -/
theorem scripting_not_read : ∀ name ∈ scripting, name ∉ readCommands := by decide

theorem check_confined (h : check sha256 identity command = .ok ()) :
    Confined sha256 identity (Ascii.toUppercase command.name) command := by
  obtain ⟨-, ha⟩ := check_eq_ok.mp h
  constructor
  case hardDeny => exact fun hn => adminPair_of_adminAllowed (ha.hardDeny hn)
  case scripting =>
    intro hn
    obtain ⟨he, hs⟩ := ha.scripting hn
    refine ⟨he, hs, Bool.eq_false_iff.mpr fun hr => ?_⟩
    exact scripting_not_read _ hn (ha.readOnly hr)
  case blocking =>
    intro hn argument hm
    exact Bool.eq_false_iff.mpr (List.any_eq_false.mp (ha.blocking hn) argument hm)
  case blocked => exact ha.blocked
  case allowed => exact ha.allowed
  case readOnly => exact ha.readOnly
  case defaultBlock => exact fun hl hn => (ha.defaultBlock hl hn).imp_right adminPair_of_adminAllowed

def operator : Identity := ⟨"operator", "operator", "default", false, true, false, none, ∅, ∅, none⟩

def configGet : RedisCommand := ⟨"config", [Ascii.bytes "Get", Ascii.bytes "maxmemory"]⟩

theorem check_confined_operator : check (fun _ => Vector.replicate 32 0) operator configGet = .ok () ∧
    Confined (fun _ => Vector.replicate 32 0) operator (Ascii.toUppercase configGet.name) configGet := by
  have h : check (fun _ => Vector.replicate 32 0) operator configGet = .ok () := by decide
  exact ⟨h, check_confined h⟩

end Confinement

end Acl
end Srh.Domain
