import Srh.Domain.Acl
import Srh.Domain.Convert

/-! How a command's name is spelled: the policy looks at its upper-case form in every
layer, the normalisation of a GEODIST at the name as it was sent. -/
namespace Srh.Domain
open Srh.Lib Srh.Ports

namespace Compat

def lowerUnit : List Bytes → List Bytes
  | [key, source, target, unit] =>
    if units.contains unit then [key, source, target, Ascii.toLowercase unit] else [key, source, target, unit]
  | args => args

def EndsInUnit (args : List Bytes) : Prop := ∃ key source target unit, args = [key, source, target, unit] ∧ unit ∈ units

private theorem toLowercase_units : ∀ unit ∈ units, Ascii.toLowercase unit ∉ units := by decide

private theorem normalize_eq (command : RedisCommand) :
    normalize command = if command.name = "GEODIST" then ⟨command.name, lowerUnit command.args⟩ else command := by
  obtain ⟨name, args⟩ := command
  by_cases hn : name = "GEODIST"
  · subst hn
    rw [if_pos rfl]
    rcases args with _ | ⟨key, _ | ⟨source, _ | ⟨target, _ | ⟨unit, _ | ⟨more, rest⟩⟩⟩⟩⟩
    case cons.cons.cons.cons.nil =>
      by_cases hu : unit ∈ units <;> simp only [normalize, lowerUnit, List.contains_iff_mem, hu, if_true, if_false]
    all_goals rfl
  · rw [if_neg hn, normalize]
    split
    · exact absurd ‹name = "GEODIST"› hn
    · rfl

private theorem lowerUnit_ne_iff {args : List Bytes} : lowerUnit args ≠ args ↔ EndsInUnit args := by
  constructor
  · intro h
    rcases args with _ | ⟨key, _ | ⟨source, _ | ⟨target, _ | ⟨unit, _ | ⟨more, rest⟩⟩⟩⟩⟩
    case cons.cons.cons.cons.nil =>
      refine ⟨key, source, target, unit, rfl, ?_⟩
      by_contra hu
      exact h (if_neg (mt List.contains_iff_mem.mp hu))
    all_goals exact absurd rfl h
  · rintro ⟨key, source, target, unit, rfl, hu⟩ h
    rw [lowerUnit, if_pos (List.contains_iff_mem.mpr hu)] at h
    have hsame : Ascii.toLowercase unit = unit := by simpa using h
    exact toLowercase_units unit hu (hsame.symm ▸ hu)

private theorem lowerUnit_lowerUnit (args : List Bytes) : lowerUnit (lowerUnit args) = lowerUnit args := by
  by_contra h
  obtain ⟨key, source, target, unit, heq, hu⟩ := lowerUnit_ne_iff.mp h
  have hne : lowerUnit args ≠ args := by
    intro hsame
    rw [hsame, hsame] at h
    exact h rfl
  obtain ⟨key', source', target', unit', rfl, hu'⟩ := lowerUnit_ne_iff.mp hne
  rw [lowerUnit, if_pos (List.contains_iff_mem.mpr hu')] at heq
  have hunit : Ascii.toLowercase unit' = unit := by simpa using congrArg List.getLast? heq
  exact toLowercase_units unit' hu' (hunit.symm ▸ hu)

private theorem normalize_normalize (command : RedisCommand) : normalize (normalize command) = normalize command := by
  rw [normalize_eq, normalize_name]
  by_cases hn : command.name = "GEODIST"
  · rw [if_pos hn, normalize_eq, if_pos hn, lowerUnit_lowerUnit]
  · rw [if_neg hn]

end Compat

namespace Acl
open Compat
variable (sha256 : Bytes → Digest) (identity : Identity)

private theorem head_lowerUnit (args : List Bytes) : (lowerUnit args).head? = args.head? := by
  rw [lowerUnit.eq_def]
  split
  · split <;> rfl
  · rfl

/-- A keyword is looked for in any case, so the case of the unit does not matter. -/
theorem any_lowerUnit (args : List Bytes) (keyword : Bytes) :
    ((lowerUnit args).any fun argument => Ascii.eqIgnoreCase argument keyword) =
      args.any fun argument => Ascii.eqIgnoreCase argument keyword := by
  rw [lowerUnit.eq_def]
  split
  · rename_i key source target unit
    split
    · simp only [List.any_cons, Ascii.eqIgnoreCase, Ascii.toLowercase_toLowercase]
    · rfl
  · rfl

/-- The checks read the first argument and look for keywords. -/
theorem checkName_congr {name : String} {a b : RedisCommand} (hhead : a.args.head? = b.args.head?)
    (hmentions : ∀ keyword, mentions a keyword = mentions b keyword) :
    checkName sha256 identity name a = checkName sha256 identity name b := by
  simp only [checkName, checkScripting, hhead, hmentions]

theorem check_normalize (command : RedisCommand) :
    check sha256 identity (normalize command) = check sha256 identity command := by
  rw [check, check, normalize_name]
  by_cases hn : command.name = "GEODIST"
  · have hargs : (normalize command).args = lowerUnit command.args := by rw [normalize_eq, if_pos hn]
    rw [checkName_congr]
    · rw [hargs, head_lowerUnit]
    · intro keyword
      rw [mentions, mentions, hargs, any_lowerUnit]
  · rw [normalize_eq, if_neg hn]

private theorem toUppercase_eq_empty {name : String} : Ascii.toUppercase name = "" ↔ name = "" := by
  rw [Ascii.toUppercase, ← String.toList_inj, String.toList_ofList, ← String.toList_inj]
  exact List.map_eq_nil_iff

/-- The policy does not depend on how the name is spelled. -/
theorem check_spelling {a b : RedisCommand} (hname : Ascii.toUppercase a.name = Ascii.toUppercase b.name)
    (hargs : a.args = b.args) : check sha256 identity a = check sha256 identity b := by
  have hempty : a.name = "" ↔ b.name = "" := by rw [← toUppercase_eq_empty, hname, toUppercase_eq_empty]
  have hchecks : checkName sha256 identity (Ascii.toUppercase b.name) a = checkName sha256 identity (Ascii.toUppercase b.name) b := by
    apply checkName_congr
    · rw [hargs]
    · intro keyword
      rw [mentions, mentions, hargs]
  rw [check, check, hname, hchecks]
  simp only [hempty]

end Acl

namespace Compat

/-- Arguments sent for two spellings of one name differ only where one spelling is
the one that normalisation looks for. -/
theorem normalize_spelling {a b : RedisCommand} (hargs : a.args = b.args) :
    (normalize a).args = (normalize b).args ↔ (EndsInUnit a.args → (a.name = "GEODIST" ↔ b.name = "GEODIST")) := by
  rw [normalize_eq, normalize_eq]
  by_cases ha : a.name = "GEODIST" <;> by_cases hb : b.name = "GEODIST"
  · simp only [ha, hb, if_true, hargs, iff_self, imp_true_iff]
  · rw [if_pos ha, if_neg hb, ← hargs]
    have hunit : lowerUnit a.args ≠ a.args ↔ EndsInUnit a.args := lowerUnit_ne_iff
    tauto
  · rw [if_neg ha, if_pos hb, ← hargs]
    have hunit : lowerUnit a.args ≠ a.args ↔ EndsInUnit a.args := lowerUnit_ne_iff
    tauto
  · simp only [ha, hb, if_false, hargs, iff_self, imp_true_iff]

/-- Two spellings of one name get the same decision and send the same arguments, and
normalising a command changes no decision and nothing the second time. -/
structure CaseInsensitive (sha256 : Bytes → Digest) (identity : Identity) (a b : RedisCommand) : Prop where
  decision : Acl.check sha256 identity a = Acl.check sha256 identity b
  arguments : (normalize a).args = (normalize b).args
  normalized : ∀ command, Acl.check sha256 identity (normalize command) = Acl.check sha256 identity command
  idempotent : ∀ command, normalize (normalize command) = normalize command

theorem case_insensitive_iff (sha256 : Bytes → Digest) (identity : Identity) (a b : RedisCommand)
    (hname : Ascii.toUppercase a.name = Ascii.toUppercase b.name) (hargs : a.args = b.args) :
    CaseInsensitive sha256 identity a b ↔ (EndsInUnit a.args → (a.name = "GEODIST" ↔ b.name = "GEODIST")) := by
  constructor
  · intro h
    exact (normalize_spelling hargs).mp h.arguments
  · intro h
    exact
      { decision := Acl.check_spelling sha256 identity hname hargs
        arguments := (normalize_spelling hargs).mpr h
        normalized := Acl.check_normalize sha256 identity
        idempotent := normalize_normalize }

def distance (name : String) : RedisCommand := ⟨name, ["key", "from", "to", "KM"].map Ascii.bytes⟩

def reader : Identity := ⟨"reader", "reader", "default", true, false, false, none, ∅, ∅, none⟩

theorem case_insensitive_iff_lower :
    CaseInsensitive (fun _ => Vector.replicate 32 0) reader (distance "geodist") (distance "GeoDist") :=
  (case_insensitive_iff _ reader (distance "geodist") (distance "GeoDist") (by decide) rfl).mpr fun _ => by decide

/-- Both spellings are admitted, and Redis gets the unit in lower case from one of
them only. -/
theorem geodist_spelling_changes_arguments :
    Acl.check (fun _ => Vector.replicate 32 0) reader (distance "geodist") = .ok () ∧
    Acl.check (fun _ => Vector.replicate 32 0) reader (distance "GEODIST") = .ok () ∧
    (normalize (distance "GEODIST")).args = ["key", "from", "to", "km"].map Ascii.bytes ∧
    (normalize (distance "geodist")).args = ["key", "from", "to", "KM"].map Ascii.bytes := by
  decide

end Compat
end Srh.Domain
