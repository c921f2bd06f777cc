import IdentityTokens.Minter
import IdentityTokens.Proofs.Call.Endings
import IdentityTokens.Proofs.Json.Nesting
import IdentityTokens.Proofs.Jwt
import IdentityTokens.Token

/-! # Payloads of minted tokens in other hands

The payload of a minted token can be read by who looks for something else than a custom token in
it. Members that are not looked for are passed over with all that developers put into them. So
nothing in the developer claims is taken for a member of the payload, and what is read is the same
for all of them. -/
namespace IdentityTokens

open Json

section Members

variable {σ : Type} {form : Form σ} {seen : List String} {v result : σ}

/-- A member that is there or not, and is passed over. -/
theorem takes_claims (claims : List (String × Json)) {ms : List (String × Json)}
    (hfield : form.field? "claims" = none) (hopen : form.closed = none)
    (h : form.Takes (Reader.maxDepth - 1) seen v ms result) :
    form.Takes (Reader.maxDepth - 1) seen v
      ((if claims.isEmpty then [] else [("claims", .object claims)]) ++ ms) result := by
  by_cases hclaims : claims.isEmpty
  · rw [if_pos hclaims]
    exact h
  · rw [if_neg hclaims]
    exact .skip hfield hopen h

end Members

namespace CustomToken

variable {t : CustomToken}

/-- A custom token in the place of another one, as far as they have claims of the same names. -/
def asIdToken (t : CustomToken) : IdToken :=
  { IdToken.form.blank with
    issuer := t.issuer
    audience := t.audience
    expires := t.expires
    issuedAt := t.issuedAt
    subject := t.subject
    uid := t.uid }

/-- **A custom token can be read in the place of an ID token**, whatever its claims are. -/
theorem decode_asIdToken (t : CustomToken) :
    IdToken.decode (Text.bytes t.toJson.compact) = .ok t.asIdToken := by
  obtain ⟨issuer, subject, audience, issuedAt, expires, uid, claims, tenant⟩ := t
  apply Form.Takes.decode_compact
  rw [List.append_assoc]
  refine .field rfl rfl (reads_field (reads_text issuer)) ?_
  refine .field rfl rfl (reads_field (reads_text subject)) ?_
  refine .field rfl rfl (reads_field (reads_text audience)) ?_
  refine .field rfl rfl (reads_field (reads_time issuedAt)) ?_
  refine .field rfl rfl (reads_field (reads_time expires)) ?_
  refine .field rfl rfl (reads_field (reads_text uid)) ?_
  refine takes_claims claims rfl rfl ?_
  cases tenant with
  | none => exact .done rfl rfl
  | some id => exact .skip rfl rfl (.done rfl rfl)

/-- What is asked for by who wants to know the tenant alone. -/
def tenantForm : Form (Option String) where
  title := "struct Tenant"
  fields := [field "tenant_id" .always (Reader.optional Reader.text) fun v _ => v]
  blank := none

/-- **The tenant can be read**, whatever the claims are. -/
theorem decode_tenant (t : CustomToken) :
    tenantForm.decode (Text.bytes t.toJson.compact) = .ok t.tenant := by
  obtain ⟨issuer, subject, audience, issuedAt, expires, uid, claims, tenant⟩ := t
  apply Form.Takes.decode_compact
  rw [List.append_assoc]
  refine .skip rfl rfl (.skip rfl rfl (.skip rfl rfl (.skip rfl rfl (.skip rfl rfl
    (.skip rfl rfl (takes_claims claims rfl rfl ?_))))))
  cases tenant with
  | none => exact .done rfl rfl
  | some id => exact .field rfl rfl (reads_field (reads_optional_text id)) (.done rfl rfl)

/-- The payload nests its claims in one container. -/
theorem nests_toJson (ht : (Json.object t.claims).Nests (Reader.maxDepth - 1)) :
    t.toJson.Nests Reader.maxDepth := by
  obtain ⟨issuer, subject, audience, issuedAt, expires, uid, claims, tenant⟩ := t
  refine .object fun m hm => ?_
  simp only [List.mem_append, List.mem_cons, List.not_mem_nil, or_false] at hm
  rcases hm with ((rfl | rfl | rfl | rfl | rfl | rfl) | hm) | hm
  · exact .text issuer
  · exact .text subject
  · exact .text audience
  · exact .whole _
  · exact .whole _
  · exact .text uid
  · split at hm
    · cases hm
    · rw [List.mem_singleton.mp hm]
      exact ht
  · split at hm
    · cases hm
    · rw [List.mem_singleton.mp hm]
      exact .text _

end CustomToken

namespace Minter

variable {m : Minter} {uid token : String} {claims : List (String × Json)}

/-- However minting comes to a token, some account issued it, and something signs it. -/
theorem of_mint (h : (m.mint uid claims).MayEnd (.ok token)) :
    ∃ email now signature, token = Jwt.assemble
      (Jwt.signingInput (JwtHeader.ofAlgorithm m.signer.algorithm)
        (CustomToken.issue email now uid claims m.tenant).toJson) signature := by
  unfold mint at h
  obtain ⟨email, -, h⟩ := h.of_bind
  obtain ⟨-, -, h⟩ := h.of_bind
  obtain ⟨-, -, h⟩ := h.of_bind
  obtain ⟨now, -, h⟩ := h.of_bind
  obtain ⟨signature, -, h⟩ := h.of_bind
  exact ⟨email, now, signature, Except.ok.inj (Call.mayEnd_done.mp h)⟩

end Minter

end IdentityTokens
