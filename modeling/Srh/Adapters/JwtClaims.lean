import Srh.Adapters.JwtAuth
import Srh.Domain.AclPolicy

/-! Claims and policy can only narrow: what a token adds to its claims, or loses of
its roles, never lets a command through that was refused before. -/
namespace Srh.Adapters.JwtAuth
open Srh.Lib Srh.Domain Srh.Ports Jwt

section Narrowing
variable {auth : JwtAuth} {narrow wide : Claims}

/-- Claims for the same pool with at least the blocked commands, a key prefix where
there is one, and no further role. -/
structure Narrows (auth : JwtAuth) (narrow wide : Claims) : Prop where
  srhPool : narrow.srhPool = wide.srhPool
  srhBlockedCommands : ∀ command ∈ wide.srhBlockedCommands, command ∈ narrow.srhBlockedCommands
  srhKeyPrefix : wide.srhKeyPrefix.isSome → narrow.srhKeyPrefix.isSome
  roles : ∀ role ∈ auth.roles narrow, role ∈ auth.roles wide

private theorem role_mono (h : Narrows auth narrow wide) {name : String} (hr : auth.role narrow name) : auth.role wide name := by
  rw [role, decide_eq_true_eq] at hr ⊢
  exact h.roles _ hr

private theorem privileges_mono (h : Narrows auth narrow wide) {readOnly isAdmin : Bool}
    (hp : auth.privileges narrow = .ok (readOnly, isAdmin)) :
    ∃ readOnly' isAdmin', auth.privileges wide = .ok (readOnly', isAdmin') ∧ (readOnly' → readOnly) ∧ (isAdmin → isAdmin') := by
  rw [privileges] at hp ⊢
  split at hp
  · rename_i ha
    cases hp
    rw [if_pos (role_mono h ha)]
    exact ⟨_, _, rfl, id, id⟩
  · split at hp
    · rename_i hw
      cases hp
      -- whatever the wider token is, it can write
      split
      · exact ⟨_, _, rfl, id, nofun⟩
      · rw [if_pos (role_mono h hw)]
        exact ⟨_, _, rfl, id, id⟩
    · split at hp
      · rename_i hr
        cases hp
        split
        · exact ⟨_, _, rfl, fun _ => rfl, nofun⟩
        · split
          · exact ⟨_, _, rfl, fun _ => rfl, id⟩
          · rw [if_pos (role_mono h hr)]
            exact ⟨_, _, rfl, id, id⟩
      · cases hp

/-- A successful identity: its privileges, and the allowlist of its pool. -/
theorem identity_eq_ok {claims : Claims} {i : Identity} (h : auth.identity claims = .ok i) :
    ∃ readOnly isAdmin scripts, auth.privileges claims = .ok (readOnly, isAdmin) ∧
      auth.pools (claims.srhPool.getD "default") = some scripts ∧
      i = ⟨claims.sub, claims.sub, claims.srhPool.getD "default", readOnly, isAdmin, false, none,
        (claims.srhBlockedCommands.map Ascii.toUppercase).toFinset, scripts, claims.srhKeyPrefix⟩ := by
  rw [identity] at h
  obtain ⟨⟨readOnly, isAdmin⟩, hp, h⟩ := bind_eq_ok.mp h
  simp only at h
  split at h
  · cases h
  · rename_i scripts hs
    cases h
    exact ⟨readOnly, isAdmin, scripts, hp, hs, rfl⟩

private theorem identity_mono (h : Narrows auth narrow wide) {i : Identity} (hi : auth.identity narrow = .ok i) :
    ∃ j, auth.identity wide = .ok j ∧ i ≤ j := by
  obtain ⟨readOnly, isAdmin, scripts, hp, hs, rfl⟩ := identity_eq_ok hi
  obtain ⟨readOnly', isAdmin', hp', hro, had⟩ := privileges_mono h hp
  rw [h.srhPool] at hs
  refine ⟨_, bind_eq_ok.mpr ⟨_, hp', by simp only [hs]; rfl⟩, ?_⟩
  constructor
  case readOnly => exact hro
  case isAdmin => exact had
  case legacy => exact id
  case blockedCommands =>
    intro command hc
    simp only [List.mem_toFinset, List.mem_map] at hc ⊢
    obtain ⟨raw, hr, rfl⟩ := hc
    exact ⟨raw, h.srhBlockedCommands raw hr, rfl⟩
  case allowedScriptSha256 => exact Finset.Subset.refl _
  case keyPrefix => exact h.srhKeyPrefix
  case allowedCommands => exact .inl ⟨rfl, rfl⟩

end Narrowing

/-- A wider identity accepts all that a narrower one accepts; so claims that add
blocked commands or a key prefix, or lose roles, let nothing new through. -/
theorem narrowing_never_widens (sha256 : Bytes → Digest) :
    (∀ i j : Identity, i ≤ j → ∀ command, Acl.check sha256 i command = .ok () → Acl.check sha256 j command = .ok ()) ∧
    ∀ (auth : JwtAuth) (narrow wide : Claims), Narrows auth narrow wide → ∀ (command : RedisCommand) (i : Identity),
      auth.identity narrow = .ok i → Acl.check sha256 i command = .ok () →
      ∃ j, auth.identity wide = .ok j ∧ Acl.check sha256 j command = .ok () := by
  refine ⟨fun i j h command => Acl.check_mono h, ?_⟩
  intro auth narrow wide h command i hi hc
  obtain ⟨j, hj, hij⟩ := identity_mono h hi
  exact ⟨j, hj, Acl.check_mono hij hc⟩

def sampleAuth : JwtAuth := ⟨sampleConfig, fun _ => some ∅, false⟩

theorem narrowing_never_widens_reader :
    ∃ j, sampleAuth.identity (sampleClaims ["redis:read", "redis:write"] []) = .ok j ∧
      Acl.check (fun _ => Vector.replicate 32 0) j ⟨"get", [Ascii.bytes "key"]⟩ = .ok () :=
  (narrowing_never_widens fun _ => Vector.replicate 32 0).2 sampleAuth (sampleClaims ["redis:read"] ["set"])
    (sampleClaims ["redis:read", "redis:write"] []) ⟨rfl, by decide, by decide, by decide⟩ _ _ rfl (by decide)

end Srh.Adapters.JwtAuth
