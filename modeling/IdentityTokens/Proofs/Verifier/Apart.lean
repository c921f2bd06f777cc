import IdentityTokens.Proofs.Verifier.CustomTokens
import IdentityTokens.Proofs.Verifier.Modes

/-! # Verifiers apart

Whatever a verifier is answered, what it hands out is what the content of the token comes to, and
the content depends on the verifier in nothing but its kind, its project and whether it looks at
signatures. A token names one audience and one issuer, and the starts of the issuers are no
beginnings of each other with a project behind. So a token tells which verifiers may accept it,
and they all read the same in it. -/
namespace IdentityTokens

/-! ## What the token names -/

namespace Kind

variable {kind kind' : Kind} {project : String}

theorem issuerStart_inj (h : kind.issuerStart = kind'.issuerStart) : kind = kind' := by
  cases kind <;> cases kind'
  · rfl
  · exact absurd h (by decide)
  · exact absurd h (by decide)
  · rfl

/-- Of one project there is one kind for an issuer. -/
theorem issuer_inj (h : kind.issuer project = kind'.issuer project) : kind = kind' := by
  apply issuerStart_inj
  apply String.toList_injective
  have hlist := congrArg String.toList h
  rw [issuer, issuer, String.toList_append, String.toList_append] at hlist
  exact List.append_cancel_right hlist

end Kind

namespace Verifier

variable {v v' : Verifier} {token : String} {t t' : IdToken}

/-- What an accepted token comes to is read off its payload, which names the project and the
kind. -/
theorem named_of_checkContent {header : JwtHeader} (hc : v.checkContent token = .ok (header, t)) :
    ∃ s typed members, Segments.split token = .ok s ∧ s.readPayload IdToken.decode = .ok typed ∧
      s.readPayload Json.readObject = .ok members ∧ typed.audience = v.project ∧
      typed.issuer = v.kind.issuer v.project ∧ t = (Parts.mk header typed members).settled := by
  obtain ⟨-, p, hp, -, hclaims, rfl, rfl⟩ := checkContent_eq_ok_iff.mp hc
  obtain ⟨haudience, hissuer, -⟩ := checkClaims_eq_ok_iff.mp hclaims
  obtain ⟨s, hs, -, ht, hm⟩ := segments_of_parts hp
  exact ⟨s, p.token, p.claims, hs, ht, hm, haudience, hissuer, rfl⟩

/-- **Verifiers of different kinds or for different projects accept no token in common**, and
those that accept a token hand out the same, whenever they do, whatever keys they got and whether
or not they look at signatures. -/
theorem eq_of_accepted (h : (v.verify token).MayEnd (.ok t))
    (h' : (v'.verify token).MayEnd (.ok t')) :
    v.kind = v'.kind ∧ v.project = v'.project ∧ t = t' := by
  obtain ⟨header, hc⟩ := checkContent_of_mayEnd h
  obtain ⟨header', hc'⟩ := checkContent_of_mayEnd h'
  obtain ⟨s, typed, members, hs, ht, hm, haudience, hissuer, rfl⟩ := named_of_checkContent hc
  obtain ⟨s', typed', members', hs', ht', hm', haudience', hissuer', rfl⟩ :=
    named_of_checkContent hc'
  obtain rfl : s = s' := Except.ok.inj (hs.symm.trans hs')
  obtain rfl : typed = typed' := Except.ok.inj (ht.symm.trans ht')
  obtain rfl : members = members' := Except.ok.inj (hm.symm.trans hm')
  have hproject : v.project = v'.project := haudience.symm.trans haudience'
  have hkind : v.kind.issuer v'.project = v'.kind.issuer v'.project :=
    (congrArg v.kind.issuer hproject.symm).trans (hissuer.symm.trans hissuer')
  exact ⟨Kind.issuer_inj hkind, hproject, rfl⟩

/-- What a token for the user `u` of the project `p` has to say. -/
def leastContent : CustomToken where
  issuer := Kind.idToken.issuer "p"
  subject := "u"
  audience := "p"
  issuedAt := 1
  expires := 9
  uid := "u"
  claims := []
  tenant := none

/-- A token that says it and is not signed. -/
def unsignedToken : String :=
  Jwt.assemble (Jwt.signingInput (JwtHeader.ofAlgorithm JwtHeader.unsigned) leastContent.toJson) []

/-- An emulator accepts it, as long as it lasts. -/
theorem exists_mayEnd_unsignedToken (keys : KeySource) :
    ∃ t, ((emulated .idToken "p" keys).verify unsignedToken).MayEnd (.ok t) := by
  have hclaims : (Json.object leastContent.claims).Nests (Json.Reader.maxDepth - 1) :=
    .object fun _ hm => absurd hm List.not_mem_nil
  obtain ⟨members, hmembers⟩ :
      ∃ members, Json.readObject (Text.bytes leastContent.toJson.compact) = .ok members :=
    Json.Nests.exists_readObject (CustomToken.nests_toJson hclaims)
  have hparts := parts_assemble (JwtHeader.ofAlgorithm JwtHeader.unsigned) leastContent []
  rw [hmembers] at hparts
  have hheader : checkEmulated (JwtHeader.ofAlgorithm JwtHeader.unsigned) = .ok () :=
    checkEmulated_eq_ok_iff.mpr (.inr rfl)
  have hsays : (emulated .idToken "p" keys).checkClaims leastContent.asIdToken = .ok () :=
    checkClaims_eq_ok_iff.mpr ⟨rfl, rfl, show 1 ≤ "u".length by decide,
      show "u".length ≤ 128 by decide⟩
  let p : Parts := ⟨JwtHeader.ofAlgorithm JwtHeader.unsigned, leastContent.asIdToken, members⟩
  have hc : (emulated .idToken "p" keys).checkContent unsignedToken = .ok (p.header, p.settled) :=
    checkContent_eq_ok_iff.mpr ⟨show "p" ≠ "" by decide, p, hparts, hheader, hsays, rfl, rfl⟩
  have htimes : checkTimes 5 p.settled = .ok () :=
    checkTimes_eq_ok_iff.mpr
      ⟨show (1 : Int) - 300 ≤ 5 by decide, show (5 : Int) ≤ 9 + 300 by decide⟩
  refine ⟨p.settled, ?_⟩
  rw [verify_of_accepted hc]
  refine .ask 5 ?_
  rw [afterClock_emulated, htimes]
  exact .done _

theorem eq_of_accepted_unsigned :
    ∃ t t', ((emulated .idToken "p" .custom).verify unsignedToken).MayEnd (.ok t) ∧
      ((emulated .idToken "p" (.published "http://certs.test/")).verify unsignedToken).MayEnd
        (.ok t') ∧ t = t' := by
  obtain ⟨t, ht⟩ := exists_mayEnd_unsignedToken .custom
  obtain ⟨t', ht'⟩ := exists_mayEnd_unsignedToken (.published "http://certs.test/")
  exact ⟨t, t', ht, ht', (eq_of_accepted ht ht').2.2⟩

end Verifier

end IdentityTokens
