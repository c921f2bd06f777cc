import IdentityTokens.Jws
import IdentityTokens.Proofs.Minter.Payloads

/-! # Signed tokens in other hands

Who checks a signature takes a token apart in a way of its own, and reads header and payload with
demands of its own. A custom token meets all of them, whatever its claims are: no member that is
looked at comes twice, the times are numbers and the subject is a text. So the signature alone
decides. -/
namespace IdentityTokens

open Json

namespace Jws

/-! ## Taking a token apart -/

theorem parts?_of_split {token : String} {s : Segments} (h : Segments.split token = .ok s) :
    parts? token = some s := by
  rw [Segments.split] at h
  split at h
  · rename_i header payload signature hcut
    cases h
    have hreverse : [header, payload, signature].reverse = [signature, payload, header] := rfl
    have hheader : ['.'].intercalate ([].reverse ++ [header]) = header := by
      simp [List.intercalate]
    rw [parts?, hcut, hreverse]
    simp only [hheader]
  · cases h

theorem readRaw?_encode {v w : Json} (h : readRaw (Text.bytes v.compact) = .ok w) :
    readRaw? (Segment.encode v) = some w := by
  rw [readRaw?, Segment.decode_encode, h]
  rfl

theorem verifies_of_split {token : String} {s : Segments} {header payload : Json}
    {signature : Bytes} {key : Rsa.PublicKey} (hsplit : Segments.split token = .ok s)
    (hheader : readRaw? s.header = some header) (hpayload : readRaw? s.payload = some payload)
    (hsignature : s.readSignature = .ok signature) :
    verifies key token = (isHeader header && key.verifies (Text.bytes s.signingInput) signature &&
      isPayload payload) := by
  rw [verifies, parts?_of_split hsplit]
  simp only [hheader, hpayload, hsignature, Except.toOption, Option.any_some]

/-! ## Members that were read -/

section Members

variable {members : List (String × Json)} {get : Json → Json}
  {checks : List (String × (Json → Bool))}

/-- Members pass checks if no name is repeated and the check of a name passes its value. -/
theorem membersPass_map (hnames : (names members).Nodup)
    (hchecks : ∀ m ∈ members, ∀ c ∈ checks, m.1 = c.1 → c.2 (get m.2) = true) :
    membersPass checks (members.map fun m => (m.1, get m.2)) = true := by
  have hsame : names (members.map fun m => (m.1, get m.2)) = names members := by
    rw [names, names, List.map_map]
    rfl
  rw [membersPass, List.all_eq_true]
  intro c hc
  rw [Bool.and_eq_true, decide_eq_true_eq, List.all_eq_true]
  refine ⟨?_, fun n hn => ?_⟩
  · rw [count, hsame]
    exact List.nodup_iff_count_le_one.mp hnames c.1
  · obtain ⟨m, hm, rfl⟩ := List.mem_map.mp hn
    by_cases hname : m.1 = c.1
    · rw [hchecks m hm c hc hname, Bool.or_true]
    · rw [Bool.or_eq_true]
      exact .inl (bne_iff_ne.mpr hname)

end Members

end Jws

/-! ## Custom tokens -/

namespace JwtHeader

/-- The header of a signed custom token is one that a signed token may have. -/
theorem isHeader_rs256 : Jws.isHeader (ofAlgorithm rs256).toJson = true := by
  decide

end JwtHeader

/-- Texts and numbers pass every check of a payload, and no check looks at developer claims. -/
theorem Jws.of_mem_payloadMembers {c : String × (Json → Bool)} (hc : c ∈ payloadMembers) :
    c.1 ≠ "claims" ∧ (∀ s, c.2 (.text s) = true) ∧ ∀ n, c.2 (.whole n) = true := by
  simp only [payloadMembers, List.mem_cons, List.not_mem_nil, or_false] at hc
  rcases hc with rfl | rfl | rfl | rfl | rfl
  all_goals exact ⟨by simp, fun _ => rfl, fun _ => rfl⟩

namespace CustomToken

/-- A payload holds texts and numbers under names of their own, besides the claims. -/
theorem exists_members (t : CustomToken) :
    ∃ ms, t.toJson = .object ms ∧ (names ms).Nodup ∧
      ∀ m ∈ ms, (∃ s, m.2 = .text s) ∨ (∃ n, m.2 = .whole n) ∨ m.1 = "claims" := by
  obtain ⟨issuer, subject, audience, issuedAt, expires, uid, claims, tenant⟩ := t
  refine ⟨_, rfl, ?_, fun m hm => ?_⟩
  · by_cases hclaims : claims.isEmpty <;> cases tenant <;> simp [names, hclaims]
  · simp only [List.mem_append, List.mem_cons, List.not_mem_nil, or_false] at hm
    rcases hm with ((rfl | rfl | rfl | rfl | rfl | rfl) | hm) | hm
    · exact .inl ⟨_, rfl⟩
    · exact .inl ⟨_, rfl⟩
    · exact .inl ⟨_, rfl⟩
    · exact .inr (.inl ⟨_, rfl⟩)
    · exact .inr (.inl ⟨_, rfl⟩)
    · exact .inl ⟨_, rfl⟩
    · split at hm
      · cases hm
      · rw [List.mem_singleton.mp hm]
        exact .inr (.inr rfl)
    · split at hm
      · cases hm
      · rw [List.mem_singleton.mp hm]
        exact .inl ⟨_, rfl⟩

/-- **The payload of a custom token is one that a signed token may have**, whatever its claims
are. -/
theorem exists_isPayload {t : CustomToken}
    (ht : (Json.object t.claims).Nests (Reader.maxDepth - 1)) :
    ∃ v, readRaw (Text.bytes t.toJson.compact) = .ok v ∧ Jws.isPayload v = true := by
  have hnests := nests_toJson ht
  obtain ⟨ms, hms, hnames, hplain⟩ := t.exists_members
  rw [hms] at hnests ⊢
  obtain ⟨get, hget, hread⟩ := hnests.exists_readRaw
  refine ⟨_, hread, Jws.membersPass_map hnames fun m hm c hc hname => ?_⟩
  have hreads := hget m hm
  obtain ⟨hother, htext, hwhole⟩ := Jws.of_mem_payloadMembers hc
  rcases hplain m hm with ⟨s, hs⟩ | ⟨n, hn⟩ | hclaims
  · rw [hs] at hreads ⊢
    have hsame : get (.text s) = .text s :=
      hreads.unique fun _ hrest => (Fits.text s).value_written hrest
    rw [hsame]
    exact htext s
  · rw [hn] at hreads ⊢
    have hsame : get (.whole n) = .whole n :=
      hreads.unique fun _ hrest => (Fits.whole n).value_written hrest
    rw [hsame]
    exact hwhole n
  · exact absurd (hname.symm.trans hclaims) hother

end CustomToken

namespace Jws

/-- **A signed custom token verifies just if its signature does**, whatever its claims are. -/
theorem verifies_assemble {t : CustomToken} (key : Rsa.PublicKey) (signature : Bytes)
    (ht : (Json.object t.claims).Nests (Reader.maxDepth - 1)) :
    verifies key (Jwt.assemble
        (Jwt.signingInput (JwtHeader.ofAlgorithm JwtHeader.rs256) t.toJson) signature) =
      key.verifies (Text.bytes
        (Jwt.signingInput (JwtHeader.ofAlgorithm JwtHeader.rs256) t.toJson)) signature := by
  obtain ⟨v, hv, hpayload⟩ := CustomToken.exists_isPayload ht
  have hheader := readRaw_compact (JwtHeader.fits_toJson (JwtHeader.ofAlgorithm JwtHeader.rs256))
  rw [verifies_of_split (Jwt.split_assemble _ _ signature) (readRaw?_encode hheader)
    (readRaw?_encode hv) (Jwt.readSignature_segments _ _ signature), hpayload,
    JwtHeader.isHeader_rs256, Jwt.signingInput_segments, Bool.true_and, Bool.and_true]

end Jws

end IdentityTokens
