import IdentityTokens.Proofs.Call.Endings
import IdentityTokens.Proofs.Minter.Contents
import IdentityTokens.Proofs.Minter.Payloads
import IdentityTokens.Proofs.Verifier.Decision

/-! # Custom tokens before a verifier

A custom token that was minted is taken apart like any other token, up to the nesting of its
claims. It names no key, which a verifier of signed tokens refuses; and its audience is the usual
one of custom tokens, which a verifier for another project refuses, whether or not it looks at
signatures. Either way it is refused for what it says, before anything is asked. -/
namespace IdentityTokens

open Verifier

namespace Verifier

variable {v : Verifier} {h : JwtHeader} {t : IdToken} {token : String}

theorem checkSigned_customToken (hkey : h.keyId? = none)
    (haudience : t.audience = CustomToken.usualAudience) :
    checkSigned h t = .error .customToken := by
  rw [checkSigned, hkey]
  exact congrArg Except.error (if_pos haudience)

theorem checkClaims_audience (haudience : t.audience ≠ v.project) :
    v.checkClaims t = .error (.audience v.project t.audience) :=
  if_pos haudience

theorem checkEmulated_cases (h : JwtHeader) :
    checkEmulated h = .error (.algorithm true h.algorithm) ∨ checkEmulated h = .ok () := by
  rw [checkEmulated]
  split
  · exact .inl rfl
  · exact .inr rfl

end Verifier

section Minted

variable {m : Minter} {uid token email : String} {claims : List (String × Json)} {now : Int64}
  {signature : Bytes}

/-- What a custom token says is taken apart, whatever its header is, if all of it can be read. -/
theorem parts_assemble (header : JwtHeader) (t : CustomToken) (signature : Bytes) :
    parts (Jwt.assemble (Jwt.signingInput header t.toJson) signature) =
      match Json.readObject (Text.bytes t.toJson.compact) with
      | .error e => .error (.codec (.json e))
      | .ok members => .ok ⟨header, t.asIdToken, members⟩ := by
  have hheader : (Jwt.segments header t.toJson signature).readHeader = .ok header := by
    unfold Segments.readHeader Jwt.segments
    rw [Segment.decode_encode, JwtHeader.decode_toJson]
    rfl
  have htyped : (Jwt.segments header t.toJson signature).readPayload IdToken.decode =
      .ok t.asIdToken := by
    unfold Segments.readPayload Jwt.segments
    rw [Segment.decode_encode, CustomToken.decode_asIdToken]
    rfl
  have hmembers : (Jwt.segments header t.toJson signature).readPayload Json.readObject =
      (Json.readObject (Text.bytes t.toJson.compact)).mapError .json :=
    Segment.decode_encode _ _
  rw [parts_of_split (Jwt.split_assemble header t.toJson signature), hheader, htyped, hmembers]
  cases Json.readObject (Text.bytes t.toJson.compact) <;> rfl

/-- What a verifier that looks at signatures, or one for another project, makes of it. -/
theorem checkContent_minted (v : Verifier)
    (hv : v.emulator = false ∨ v.project ≠ CustomToken.usualAudience) :
    ∃ r, v.checkContent (Jwt.assemble
        (Jwt.signingInput (JwtHeader.ofAlgorithm m.signer.algorithm)
          (CustomToken.issue email now uid claims m.tenant).toJson) signature) = .error r ∧
      r.code v.kind = v.kind.invalidCode ∧
      (v.emulator = false → v.project ≠ "" →
        (Json.object claims).Nests (Json.Reader.maxDepth - 1) → r = .customToken) := by
  by_cases hproject : v.project = ""
  · refine ⟨.noProject, ?_, rfl, fun _ hne => absurd hproject hne⟩
    rw [checkContent, if_pos hproject]
    rfl
  have hparts := parts_assemble (JwtHeader.ofAlgorithm m.signer.algorithm)
    (CustomToken.issue email now uid claims m.tenant) signature
  cases hobject : Json.readObject (Text.bytes
      (CustomToken.issue email now uid claims m.tenant).toJson.compact) with
  | error e =>
    rw [hobject] at hparts
    refine ⟨.codec (.json e), checkContent_of_unread hproject hparts, rfl, fun _ _ hclaims => ?_⟩
    obtain ⟨members, hmembers⟩ := Json.Nests.exists_readObject (CustomToken.nests_toJson
      (t := CustomToken.issue email now uid claims m.tenant) hclaims)
    cases hobject.symm.trans hmembers
  | ok members =>
    rw [hobject] at hparts
    have hcontent := checkContent_of_parts hproject hparts
    dsimp only at hcontent
    cases he : v.emulator with
    | false =>
      rw [he, checkSigned_customToken rfl rfl] at hcontent
      exact ⟨.customToken, hcontent, rfl, fun _ _ _ => rfl⟩
    | true =>
      have haudience : CustomToken.usualAudience ≠ v.project :=
        Ne.symm (hv.resolve_left (by simp [he]))
      rw [he, checkClaims_audience haudience] at hcontent
      rcases checkEmulated_cases (JwtHeader.ofAlgorithm m.signer.algorithm) with
        hemulated | hemulated
      all_goals rw [hemulated] at hcontent
      · exact ⟨_, hcontent, rfl, fun hf => Bool.noConfusion hf⟩
      · exact ⟨_, hcontent, rfl, fun hf => Bool.noConfusion hf⟩

namespace Verifier

/-- **A custom token is never a session.** However it was minted and whatever its claims are, no
verifier of signed tokens accepts it, and no verifier of unsigned ones either, unless its project
is the very audience of custom tokens. The verification is the failure itself: no clock, key
source or anything else is asked. As long as the claims are nested within what can be read, a
verifier of signed tokens for some project tells what it got. -/
theorem rejects_minted (hmint : (m.mint uid claims).MayEnd (.ok token)) (v : Verifier)
    (hv : v.emulator = false ∨ v.project ≠ CustomToken.usualAudience) :
    ∃ e : AuthError, v.verify token = Call.fail e ∧ e.code = v.kind.invalidCode ∧
      (v.emulator = false → v.project ≠ "" →
        (Json.object claims).Nests (Json.Reader.maxDepth - 1) →
        e.message = "expected " ++ v.kind.articledName ++ " but got a custom token") := by
  obtain ⟨email, now, signature, rfl⟩ := Minter.of_mint hmint
  obtain ⟨r, hr, hcode, hcustom⟩ := checkContent_minted (m := m) v hv
  refine ⟨_, verify_of_refused hr, hcode, fun he hproject hclaims => ?_⟩
  rw [hcustom he hproject hclaims]
  rfl

/-- Claims with a fraction and with an audience of their own, told apart from the token's. -/
def ratioClaims : List (String × Json) :=
  [("ratio", .double ⟨false, 1, -1⟩), ("session", .object [("aud", .text "project")])]

theorem rejects_minted_ratio :
    ∃ token e, (Minter.tenantMinter.mint "user" ratioClaims).MayEnd (.ok token) ∧
      (Verifier.mk .sessionCookie "project" false .custom).verify token = Call.fail e ∧
      e.code = .sessionCookieInvalid ∧
      e.message = "expected a session cookie but got a custom token" := by
  have hclaims : (Json.object ratioClaims).Nests (Json.Reader.maxDepth - 1) := by
    refine .object fun m hm => ?_
    rcases List.mem_cons.mp hm with rfl | hm
    · exact .double ⟨by decide, by decide, by decide⟩
    · obtain rfl := List.mem_singleton.mp hm
      refine .object fun n hn => ?_
      obtain rfl := List.mem_singleton.mp hn
      exact .text "project"
  let outside := Minter.standing 1000 "signer@example.com" [1, 2, 3]
  obtain ⟨token, w, hrun⟩ : ∃ token w,
      (Minter.tenantMinter.mint "user" ratioClaims).run outside (.start .empty false) =
        (.ok token, w) :=
    ⟨_, _, rfl⟩
  have hmint := Call.mayEnd_run (Minter.tenantMinter.mint "user" ratioClaims) outside
    (.start .empty false)
  rw [hrun] at hmint
  obtain ⟨e, hverify, hcode, hmessage⟩ :=
    rejects_minted hmint ⟨.sessionCookie, "project", false, .custom⟩ (.inl rfl)
  exact ⟨token, e, hmint, hverify, hcode, hmessage rfl (by decide) hclaims⟩

end Verifier

end Minted

end IdentityTokens
