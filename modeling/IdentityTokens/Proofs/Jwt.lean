import IdentityTokens.CustomToken
import IdentityTokens.Proofs.Base64
import IdentityTokens.Proofs.Json.Records
import IdentityTokens.Proofs.Segments

/-! # Tokens, assembled and taken apart

A token is split into the very segments that it was assembled from, since none of them has a
dot. Each segment is read as the document or the bytes that it was written for. -/
namespace IdentityTokens

namespace Segment

theorem decodeBytes_encodeText (bytes : Bytes) :
    decodeBytes (Base64.encodeText Base64.url bytes) = .ok bytes := by
  rw [decodeBytes, Base64.decodeText_encodeText Base64.sound_url]
  rfl

/-- What a reader makes of a segment is what it makes of the document's compact text. -/
theorem decode_encode {α : Type} (read : Bytes → Except Json.Error α) (v : Json) :
    decode read (encode v) = (read (Text.bytes v.compact)).mapError .json := by
  rw [decode, encode, decodeBytes_encodeText]
  rfl

theorem dot_not_mem_encodeText (bytes : Bytes) :
    '.' ∉ (Base64.encodeText Base64.url bytes).toList := by
  rw [Base64.encodeText, String.toList_ofList]
  exact Base64.dot_not_mem_encode Base64.sound_url

end Segment

namespace Jwt

variable (header : JwtHeader) (payload : Json) (signature : Bytes)

/-- The segments that a token is assembled from. -/
def segments : Segments where
  header := Segment.encode header.toJson
  payload := Segment.encode payload
  signature := Base64.encodeText Base64.url signature

theorem dotless_segments : (segments header payload signature).Dotless where
  header := Segment.dot_not_mem_encodeText _
  payload := Segment.dot_not_mem_encodeText _
  signature := Segment.dot_not_mem_encodeText _

theorem signingInput_segments :
    (segments header payload signature).signingInput = signingInput header payload := by
  simp only [Segments.signingInput, segments, signingInput]

theorem joined_segments :
    (segments header payload signature).joined =
      assemble (signingInput header payload) signature := by
  simp only [Segments.joined, segments, assemble, signingInput]

/-- **A token comes apart where it was joined.** -/
theorem split_assemble :
    Segments.split (assemble (signingInput header payload) signature) =
      .ok (segments header payload signature) := by
  rw [← joined_segments]
  exact Segments.split_joined (dotless_segments header payload signature)

theorem readSignature_segments :
    (segments header payload signature).readSignature = .ok signature :=
  Segment.decodeBytes_encodeText signature

end Jwt

/-! ## Records -/

section Records

open Json

namespace JwtHeader

/-- The key ID comes last, if there is one. -/
theorem takes_keyId (algorithm type : String) (keyId : Option String) {seen : List String}
    (hseen : seen.contains "kid" = false) :
    form.Takes (Reader.maxDepth - 1) seen ⟨algorithm, type, none⟩
      (match keyId with | none => [] | some kid => [("kid", .text kid)])
      ⟨algorithm, type, keyId⟩ := by
  cases keyId with
  | none => exact .done rfl rfl
  | some kid =>
    exact .field rfl hseen (reads_field (reads_optional_text kid)) (.done rfl rfl)

theorem fits_toJson (h : JwtHeader) : h.toJson.Fits Reader.maxDepth := by
  obtain ⟨algorithm, type, keyId⟩ := h
  unfold toJson
  refine .object ?_ ?_
  · by_cases htype : type = "" <;> cases keyId <;> simp [names, htype]
  · intro m hm
    simp only [List.cons_append, List.mem_cons, List.mem_append] at hm
    rcases hm with rfl | hm | hm
    · exact .text algorithm
    · split at hm
      · cases hm
      · rw [List.mem_singleton.mp hm]
        exact .text type
    · split at hm
      · cases hm
      · rw [List.mem_singleton.mp hm]
        exact .text _

/-- **A header is read as it was written**, whether or not it names a type and a key. -/
theorem decode_toJson (h : JwtHeader) : form.decode (Text.bytes h.toJson.compact) = .ok h := by
  obtain ⟨algorithm, type, keyId⟩ := h
  apply Form.Takes.decode_compact
  refine .field rfl rfl (reads_field (reads_text algorithm)) ?_
  by_cases htype : type = ""
  · subst htype
    exact takes_keyId algorithm "" keyId rfl
  · rw [if_neg htype]
    exact .field rfl rfl (reads_field (reads_text type)) (takes_keyId algorithm type keyId rfl)

end JwtHeader

namespace CustomToken

/-- The tenant comes last, if there is one. -/
theorem takes_tenant (t : CustomToken) (seen : List String)
    (hmissing : form.missing? seen = none) (hseen : seen.contains "tenant_id" = false) :
    form.Takes (Reader.maxDepth - 1) seen { t with tenant := none }
      (match t.tenant with | none => [] | some id => [("tenant_id", .text id)]) t := by
  obtain ⟨issuer, subject, audience, issuedAt, expires, uid, claims, tenant⟩ := t
  cases tenant with
  | none => exact .done hmissing rfl
  | some id =>
    exact .field rfl hseen (reads_field (reads_optional_text id))
      (.done (form.missing?_cons _ hmissing) rfl)

theorem fits_toJson {t : CustomToken} (ht : (Json.object t.claims).Fits (Reader.maxDepth - 1)) :
    t.toJson.Fits Reader.maxDepth := by
  obtain ⟨issuer, subject, audience, issuedAt, expires, uid, claims, tenant⟩ := t
  unfold toJson
  refine .object ?_ ?_
  · by_cases hclaims : claims.isEmpty <;> cases tenant <;> simp [names, hclaims]
  · intro m hm
    simp only [List.mem_append, List.mem_cons, List.not_mem_nil, or_false] at hm
    rcases hm with ((rfl | rfl | rfl | rfl | rfl | rfl) | hm) | hm
    · exact .text issuer
    · exact .text subject
    · exact .text audience
    · exact .whole _
    · exact .whole _
    · exact .text uid
    · split at hm
      · cases hm
      · rw [List.mem_singleton.mp hm]
        exact ht
    · split at hm
      · cases hm
      · rw [List.mem_singleton.mp hm]
        exact .text _

/-- **A custom token is read as it was written.** -/
theorem decode_toJson {t : CustomToken} (ht : (Json.object t.claims).Fits (Reader.maxDepth - 1)) :
    decode (Text.bytes t.toJson.compact) = .ok t := by
  have htenant := t.takes_tenant
  obtain ⟨issuer, subject, audience, issuedAt, expires, uid, claims, tenant⟩ := t
  apply Form.Takes.decode_compact
  refine .field rfl rfl (reads_field (reads_text issuer)) ?_
  refine .field rfl rfl (reads_field (reads_text subject)) ?_
  refine .field rfl rfl (reads_field (reads_text audience)) ?_
  refine .field rfl rfl (reads_field (reads_time issuedAt)) ?_
  refine .field rfl rfl (reads_field (reads_time expires)) ?_
  refine .field rfl rfl (reads_field (reads_text uid)) ?_
  by_cases hclaims : claims.isEmpty
  · rw [if_pos hclaims]
    obtain rfl := List.isEmpty_iff.mp hclaims
    exact htenant _ rfl rfl
  · rw [if_neg hclaims]
    have hsettled : Json.object (settleMembers (settledMembers claims)) = .object claims :=
      ht.settled
    refine .field rfl rfl (reads_deepField (reads_map ht)) ?_
    rw [Json.object.inj hsettled]
    exact htenant _ rfl rfl

end CustomToken

end Records

end IdentityTokens
