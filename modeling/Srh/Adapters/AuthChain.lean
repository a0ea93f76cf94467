import Srh.Adapters.JwtAuth
import Srh.ConfigFile

/-! The static authenticator of adapters/static_auth.rs and the chain of
adapters/auth_chain.rs. -/
namespace Srh.Adapters
open Srh.Lib Srh.Domain Jwt

structure StaticAuth where
  identities : Digest → Option Identity

namespace StaticAuth

def identity (digest : Digest) (token : StaticTokenConfig) : Identity where
  subject := String.ofList ((digestHex digest).toList.take 8)
  bucketKey := digestHex digest
  pool := token.pool
  readOnly := token.readOnly
  isAdmin := false
  legacy := token.legacy
  allowedCommands := token.allowedCommands
  blockedCommands := token.blockedCommands
  allowedScriptSha256 := token.allowedScriptSha256
  keyPrefix := token.keyPrefix

def new (tokens : FiniteMap Digest StaticTokenConfig) : StaticAuth where
  identities digest := (tokens.get digest).map (identity digest)

/-- Never fails; a token that is not configured is not recognized. -/
def authenticate (auth : StaticAuth) (sha256 : Bytes → Digest) : Authenticator := fun bearer =>
  .done (.ok (auth.identities (sha256 (Convert.utf8Bytes bearer))))

end StaticAuth

/-- The first link that recognizes the credential decides. -/
def AuthChain.authenticate : List Authenticator → Authenticator
  | [], _ => .done (.error .rejected)
  | link :: links, bearer => (link bearer).bind fun
    | .error error => .done (.error error)
    | .ok (some identity) => .done (.ok (some identity))
    | .ok none => AuthChain.authenticate links bearer

namespace JwtAuth
variable {Key : Type} {library : Library Key} (auth : JwtAuth) {bearer : String}

private theorem headerSegment_append (header rest : String) (h : '.' ∉ header.toList) :
    headerSegment (header ++ "." ++ rest) = some header := by
  have hlist : (header ++ "." ++ rest).toList = header.toList ++ '.' :: rest.toList := by simp
  rw [headerSegment, hlist, if_pos (by simp), List.takeWhile_append_of_pos, List.takeWhile_cons_of_neg, List.append_nil,
    String.ofList_toList]
  · simp
  · intro c hc
    exact decide_eq_true fun he => h (he ▸ hc)

private theorem hasJsonHeader_encodeUrl {bytes : Bytes} {fields : List (String × Json)} (rest : String)
    (h : library.parseJson bytes = some (.object fields)) :
    hasJsonHeader library (Base64.encodeUrl bytes ++ "." ++ rest) := by
  have hdot : '.' ∉ (Base64.encodeUrl bytes).toList := by
    rw [Base64.encodeUrl, String.toList_ofList]
    exact Base64.dot_not_mem_digits bytes
  rw [hasJsonHeader, headerSegment_append _ _ hdot, Option.bind_some, Base64.decodeUrl_encodeUrl, Option.bind_some, h]

/-- A credential with the shape of a JWT is answered or refused, never passed on. -/
theorem authenticate_decides (hd : dots bearer = 2) (hj : hasJsonHeader library bearer) :
    (auth.authenticate library bearer).Ends (fun _ _ => True) (· ≠ .ok none) := by
  rw [authenticate, if_neg (not_not.mpr hd)]
  cases library.decodeHeader bearer with
  | none =>
    rw [if_pos hj]
    exact nofun
  | some header =>
    apply (Dialogue.ends_any _).bind
    intro result _
    cases result with
    | error error => exact nofun
    | ok identity => exact nofun

private theorem authenticate_abstains (library : Library Key) (hd : dots bearer ≠ 2) : auth.authenticate library bearer = .done (.ok none) := by
  rw [authenticate, if_pos hd]

end JwtAuth

def jwtChain {Key : Type} (library : Library Key) (auth : JwtAuth) (tokens : FiniteMap Digest StaticTokenConfig) : Authenticator :=
  AuthChain.authenticate [auth.authenticate library, (StaticAuth.new tokens).authenticate library.sha256]

/-- The configured tokens decide nothing about a credential with two dots and the
base64url text of a JSON object before the first. They alone decide about a
credential with any other number of dots. -/
theorem jwtChain_separates {Key : Type} (library : Library Key) (auth : JwtAuth) (bearer : String) :
    (∀ bytes rest fields, bearer = Base64.encodeUrl bytes ++ "." ++ rest → JwtAuth.dots bearer = 2 →
      library.parseJson bytes = some (.object fields) →
      ∀ (tokens tokens' : FiniteMap Digest StaticTokenConfig) (τ : Type) (outside : (q : Question) → τ → q.Answer × τ) (t : τ),
        (jwtChain library auth tokens bearer).run outside t = (jwtChain library auth tokens' bearer).run outside t) ∧
    (JwtAuth.dots bearer ≠ 2 →
      ∀ (tokens : FiniteMap Digest StaticTokenConfig) (τ : Type) (outside : (q : Question) → τ → q.Answer × τ) (t : τ),
        (jwtChain library auth tokens bearer).run outside t =
          (((tokens.get (JwtAuth.digest library bearer)).elim (.error .rejected) fun token =>
            .ok (some (StaticAuth.identity (JwtAuth.digest library bearer) token))), t)) := by
  constructor
  · rintro bytes rest fields rfl hd hj tokens tokens' τ outside t
    have hdecides := auth.authenticate_decides hd (JwtAuth.hasJsonHeader_encodeUrl rest hj)
    have hsame : jwtChain library auth tokens (Base64.encodeUrl bytes ++ "." ++ rest) =
        jwtChain library auth tokens' (Base64.encodeUrl bytes ++ "." ++ rest) := by
      apply Dialogue.bind_congr hdecides
      rintro (error | _ | identity) hne
      · rfl
      · exact absurd rfl hne
      · rfl
    rw [hsame]
  · intro hd tokens τ outside t
    have hjwt := auth.authenticate_abstains library hd
    rw [jwtChain, AuthChain.authenticate, hjwt, Dialogue.bind]
    simp only [AuthChain.authenticate, StaticAuth.authenticate, StaticAuth.new, Dialogue.bind]
    rw [← JwtAuth.digest]
    cases tokens.get (JwtAuth.digest library bearer) with
    | none => rfl
    | some token => rfl

def sampleLibrary : Library Unit where
  decodeHeader _ := none
  decodingKey _ := none
  decode _ _ _ := none
  parseJson _ := some (.object [])
  sha256 _ := Vector.replicate 32 0

def poolless : JwtAuth := ⟨JwtAuth.sampleConfig, fun _ => none, false⟩

def sampleTokens : FiniteMap Digest StaticTokenConfig := FiniteMap.empty.insert (Vector.replicate 32 0) (defaultToken "default" true)

def silent : (q : Question) → Unit → q.Answer × Unit
  | .keyFor _, t => (.error (.unavailable ""), t)
  | .cacheGet _, t => (none, t)
  | .isActive _, t => (.error ⟨""⟩, t)
  | .cacheInsert _ _, t => ((), t)

theorem jwtChain_separates_sample :
    (jwtChain sampleLibrary poolless sampleTokens "e30.a.b").run silent () =
      (jwtChain sampleLibrary poolless .empty "e30.a.b").run silent () ∧
    (jwtChain sampleLibrary poolless sampleTokens "secret").run silent () =
      (.ok (some (StaticAuth.identity (Vector.replicate 32 0) (defaultToken "default" true))), ()) :=
  ⟨(jwtChain_separates sampleLibrary poolless "e30.a.b").1 [0x7B, 0x7D] "a.b" [] (by decide) (by decide) rfl
      sampleTokens .empty Unit silent (),
    (jwtChain_separates sampleLibrary poolless "secret").2 (by decide) sampleTokens Unit silent ()⟩

end Srh.Adapters
