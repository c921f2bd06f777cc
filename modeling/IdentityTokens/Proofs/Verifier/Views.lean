import IdentityTokens.Proofs.Json.Accord
import IdentityTokens.Proofs.Verifier.Modes
import IdentityTokens.Proofs.Verifier.Refusals

/-! # Two views of one payload

The payload of a token is decoded twice: into typed claims, and into an object that holds all
claims. What is checked is typed, and what is handed out comes from both. So nothing may be said
in one view that is not said in the other: a name that comes twice would be refused by one decoder
and settled by the other, a text in the place of a number would have no typed value. The typed
decoder stops at both, and where it does not the two views are of one text. -/
namespace IdentityTokens

open Json Json.Form

/-! ## What is said in both views -/

/-- A typed value is the default where there is no member, and else the member is what the value
is written as. -/
def Backed {α : Type} (member : Option Json) (write : α → Json) (default a : α) : Prop :=
  member = none ∧ a = default ∨ member = some (write a)

/-- A typed text that may be missing is there exactly where the member is a text, and missing
exactly where the member is missing or null. -/
structure Offered (member : Option Json) (a : Option String) : Prop where
  some_iff : ∀ s, a = some s ↔ member = some (.text s)
  none_iff : a = none ↔ member = none ∨ member = some .null

/-- The sign-in information says what a value says. -/
structure SignInInfo.Agrees (i : SignInInfo) (w : Json) : Prop where
  provider : Backed (member? "sign_in_provider" 0 w) .text "" i.provider
  tenant : Offered (member? "tenant" 1 w) i.tenant
  identities : Backed (member? "identities" 2 w) .object [] i.identities
  secondFactor : Offered (member? "sign_in_second_factor" 3 w) i.secondFactor
  secondFactorId : Offered (member? "second_factor_identifier" 4 w) i.secondFactorId

/-- The sign-in information is blank where there is no member, and else it says what the member
does, an object or a list. -/
def SignInInfo.BackedBy (i : SignInInfo) (member : Option Json) : Prop :=
  member = none ∧ i = blank ∨
    ∃ w, member = some w ∧ ((∃ ms, w = .object ms) ∨ ∃ ws, w = .array ws) ∧ i.Agrees w

/-- The typed claims say what the members of an object say. -/
structure IdToken.Agrees (t : IdToken) (members : List (String × Json)) : Prop where
  authTime : Backed (lookup "auth_time" members) .ofInt64 0 t.authTime
  issuer : Backed (lookup "iss" members) .text "" t.issuer
  audience : Backed (lookup "aud" members) .text "" t.audience
  expires : Backed (lookup "exp" members) .ofInt64 0 t.expires
  issuedAt : Backed (lookup "iat" members) .ofInt64 0 t.issuedAt
  subject : Backed (lookup "sub" members) .text "" t.subject
  uid : Backed (lookup "uid" members) .text "" t.uid
  signIn : t.signIn.BackedBy (lookup "firebase" members)

section Settled

variable {σ α : Type} {form : Form σ} {name : String} {i : Nat} {w : Json} {result : σ}

theorem backed_of_records {part : σ → α} {means : Json → α → Prop} {write : α → Json}
    (h : form.Records w result) (hsettles : form.Settles name i part means)
    (hmeans : ∀ u a, means u a → u.settled = write a) :
    Backed (member? name i w.settled) write (part form.blank) (part result) := by
  rw [member?_settled]
  rcases h.settled_part hsettles with ⟨hgiven, hpart⟩ | ⟨u, hgiven, hu⟩
  · rw [hgiven]
    exact .inl ⟨rfl, hpart⟩
  · rw [hgiven]
    exact .inr (congrArg some (hmeans u _ hu))

theorem offered_of_records {part : σ → Option String} (h : form.Records w result)
    (hsettles : form.Settles name i part (Optionally fun w s => w = .text s))
    (hblank : part form.blank = none) : Offered (member? name i w.settled) (part result) := by
  rw [member?_settled]
  rcases h.settled_part hsettles with ⟨hgiven, hpart⟩ | ⟨u, hgiven, hu⟩
  · rw [hgiven, hpart, hblank]
    exact ⟨fun s => ⟨nofun, nofun⟩, iff_of_true rfl (.inl rfl)⟩
  · rw [hgiven]
    generalize part result = a at hu
    cases hu with
    | null => exact ⟨fun s => ⟨nofun, nofun⟩, iff_of_true rfl (.inr rfl)⟩
    | said hu =>
      subst hu
      exact ⟨by simp [settled], by simp [settled]⟩

end Settled

/-! ## The sign-in information -/

namespace SignInInfo

theorem endsAlike : form.EndsAlike := by
  have htext := accords_text
  simp only [EndsAlike, form, List.forall_mem_cons, List.not_mem_nil, false_imp_iff, implies_true,
    and_true]
  exact ⟨htext.endsAlike, htext.optional.endsAlike, accords_map.endsAlike,
    htext.optional.endsAlike, htext.optional.endsAlike⟩

theorem settles_provider :
    form.Settles "sign_in_provider" 0 provider fun w s => w = .text s := by
  refine settles_of_fields [] rfl (accords_text.mono fun w s h v => h) ?_
  simp [field, keeps_deepField]

theorem settles_tenant :
    form.Settles "tenant" 1 tenant (Optionally fun w s => w = .text s) := by
  refine settles_of_fields [_] rfl (accords_text.optional.mono fun w s h v => h) ?_
  simp [field, keeps_deepField]

theorem settles_identities :
    form.Settles "identities" 2 identities fun w ms => w.settled = .object ms := by
  refine settles_of_fields [_, _] rfl (accords_map.mono fun w ms h v => ?_) ?_
  · rw [h, settled]
  · simp [field, keeps_deepField]

theorem settles_secondFactor :
    form.Settles "sign_in_second_factor" 3 secondFactor (Optionally fun w s => w = .text s) := by
  refine settles_of_fields [_, _, _] rfl (accords_text.optional.mono fun w s h v => h) ?_
  simp [field, keeps_deepField]

theorem settles_secondFactorId :
    form.Settles "second_factor_identifier" 4 secondFactorId
      (Optionally fun w s => w = .text s) := by
  refine settles_of_fields [_, _, _, _] rfl (accords_text.optional.mono fun w s h v => h) ?_
  simp [field, keeps_deepField]

theorem agrees_of_records {w : Json} {i : SignInInfo} (h : form.Records w i) :
    i.Agrees w.settled where
  provider := backed_of_records h settles_provider (by rintro _ _ rfl; rfl)
  tenant := offered_of_records h settles_tenant rfl
  identities := backed_of_records h settles_identities fun _ _ h => h
  secondFactor := offered_of_records h settles_secondFactor rfl
  secondFactorId := offered_of_records h settles_secondFactorId rfl

end SignInInfo

/-! ## The typed claims -/

namespace IdToken

theorem endsAlike : form.EndsAlike := by
  have htext := accords_text
  have htime := accords_time
  have hsignIn := accords_read SignInInfo.endsAlike
  simp only [EndsAlike, form, List.forall_mem_cons, List.not_mem_nil, false_imp_iff, implies_true,
    and_true]
  exact ⟨htime.endsAlike, htext.endsAlike, htext.endsAlike,
    htime.endsAlike, htime.endsAlike, htext.endsAlike, htext.endsAlike,
    hsignIn.endsAlike⟩

theorem settles_authTime : form.Settles "auth_time" 0 authTime fun w t => w = .ofInt64 t := by
  refine settles_of_fields [] rfl (accords_time.mono fun w t h v => h) ?_
  simp [field, keeps_deepField]

theorem settles_issuer : form.Settles "iss" 1 issuer fun w s => w = .text s := by
  refine settles_of_fields [_] rfl (accords_text.mono fun w s h v => h) ?_
  simp [field, keeps_deepField]

theorem settles_audience : form.Settles "aud" 2 audience fun w s => w = .text s := by
  refine settles_of_fields [_, _] rfl (accords_text.mono fun w s h v => h) ?_
  simp [field, keeps_deepField]

theorem settles_expires : form.Settles "exp" 3 expires fun w t => w = .ofInt64 t := by
  refine settles_of_fields [_, _, _] rfl (accords_time.mono fun w t h v => h) ?_
  simp [field, keeps_deepField]

theorem settles_issuedAt : form.Settles "iat" 4 issuedAt fun w t => w = .ofInt64 t := by
  refine settles_of_fields [_, _, _, _] rfl (accords_time.mono fun w t h v => h) ?_
  simp [field, keeps_deepField]

theorem settles_subject : form.Settles "sub" 5 subject fun w s => w = .text s := by
  refine settles_of_fields [_, _, _, _, _] rfl (accords_text.mono fun w s h v => h) ?_
  simp [field, keeps_deepField]

theorem settles_uid : form.Settles "uid" 6 uid fun w s => w = .text s := by
  refine settles_of_fields [_, _, _, _, _, _] rfl (accords_text.mono fun w s h v => h) ?_
  simp [field, keeps_deepField]

theorem settles_signIn : form.Settles "firebase" 7 signIn SignInInfo.form.Records := by
  refine settles_of_fields [_, _, _, _, _, _, _] rfl
    ((accords_read SignInInfo.endsAlike).mono fun w i h v => h) ?_
  simp [field, keeps_deepField]

variable {body : Bytes} {t : IdToken} {members raw : List (String × Json)} {name : String}

theorem signIn_of_records {w : Json} (h : form.Records w t) :
    t.signIn.BackedBy (member? "firebase" 7 w.settled) := by
  rw [member?_settled]
  rcases h.settled_part settles_signIn with ⟨hgiven, hpart⟩ | ⟨u, hgiven, hu⟩
  · rw [hgiven]
    exact .inl ⟨rfl, hpart⟩
  · rw [hgiven]
    refine .inr ⟨u.settled, rfl, ?_, SignInInfo.agrees_of_records hu⟩
    cases hu with
    | object => exact .inl ⟨_, rfl⟩
    | list => exact .inr ⟨_, rfl⟩

theorem agrees_of_records (h : form.Records (.object raw) t) :
    t.Agrees (settleMembers (settledMembers raw)) where
  authTime := backed_of_records h settles_authTime (by rintro _ _ rfl; rfl)
  issuer := backed_of_records h settles_issuer (by rintro _ _ rfl; rfl)
  audience := backed_of_records h settles_audience (by rintro _ _ rfl; rfl)
  expires := backed_of_records h settles_expires (by rintro _ _ rfl; rfl)
  issuedAt := backed_of_records h settles_issuedAt (by rintro _ _ rfl; rfl)
  subject := backed_of_records h settles_subject (by rintro _ _ rfl; rfl)
  uid := backed_of_records h settles_uid (by rintro _ _ rfl; rfl)
  signIn := signIn_of_records h

theorem records_of_decode {w : Json} (h : IdToken.decode body = .ok t)
    (hraw : Json.readRaw body = .ok w) : form.Records w t :=
  (accords_read endsAlike).document h hraw

theorem agrees_of_decode (h : IdToken.decode body = .ok t)
    (hmembers : Json.readObject body = .ok members) : t.Agrees members := by
  obtain ⟨raw, hraw, rfl⟩ := readRaw_of_readObject hmembers
  exact agrees_of_records (records_of_decode h hraw)

/-! ## Payloads that say something else -/

/-- The claims that are texts. -/
def textClaims : List String := ["iss", "aud", "sub", "uid"]

/-- The claims that are times, integers of 64 bits with a sign. -/
def timeClaims : List String := ["exp", "iat", "auth_time"]

/-- The members of a payload, their names as they are once escapes are resolved, give a typed
claim twice or as something that it cannot be. -/
inductive Misstated (raw : List (String × Json)) : Prop
  | repeated {name : String} (hname : name ∈ textClaims ∨ name ∈ timeClaims ∨ name = "firebase")
      (h : 2 ≤ (names raw).count name)
  | text {name : String} {w : Json} (hname : name ∈ textClaims) (hmem : (name, w) ∈ raw)
      (h : ∀ s, w ≠ .text s)
  | time {name : String} {w : Json} (hname : name ∈ timeClaims) (hmem : (name, w) ∈ raw)
      (h : ∀ t, w ≠ .ofInt64 t)
  | signIn {w : Json} (hmem : ("firebase", w) ∈ raw) (hobject : ∀ ms, w ≠ .object ms)
      (hlist : ∀ ws, w ≠ .array ws)
  | tenantRepeated {inner : List (String × Json)} (hmem : ("firebase", .object inner) ∈ raw)
      (h : 2 ≤ (names inner).count "tenant")
  | tenant {inner : List (String × Json)} {w : Json} (hmem : ("firebase", .object inner) ∈ raw)
      (hinner : ("tenant", w) ∈ inner) (hnull : w ≠ .null) (htext : ∀ s, w ≠ .text s)

theorem text_of_records {w : Json} (h : form.Records (.object raw) t) (hname : name ∈ textClaims)
    (hmem : (name, w) ∈ raw) : ∃ s, w = .text s := by
  simp only [textClaims, List.mem_cons, List.not_mem_nil, or_false] at hname
  rcases hname with rfl | rfl | rfl | rfl
  · exact ⟨_, h.meant settles_issuer hmem⟩
  · exact ⟨_, h.meant settles_audience hmem⟩
  · exact ⟨_, h.meant settles_subject hmem⟩
  · exact ⟨_, h.meant settles_uid hmem⟩

theorem time_of_records {w : Json} (h : form.Records (.object raw) t) (hname : name ∈ timeClaims)
    (hmem : (name, w) ∈ raw) : ∃ time, w = .ofInt64 time := by
  simp only [timeClaims, List.mem_cons, List.not_mem_nil, or_false] at hname
  rcases hname with rfl | rfl | rfl
  · exact ⟨_, h.meant settles_expires hmem⟩
  · exact ⟨_, h.meant settles_issuedAt hmem⟩
  · exact ⟨_, h.meant settles_authTime hmem⟩

theorem count_le_one (h : form.Records (.object raw) t)
    (hname : name ∈ textClaims ∨ name ∈ timeClaims ∨ name = "firebase") :
    (names raw).count name ≤ 1 := by
  simp only [textClaims, timeClaims, List.mem_cons, List.not_mem_nil, or_false] at hname
  rcases hname with (rfl | rfl | rfl | rfl) | (rfl | rfl | rfl) | rfl
  · exact h.count_le_one settles_issuer
  · exact h.count_le_one settles_audience
  · exact h.count_le_one settles_subject
  · exact h.count_le_one settles_uid
  · exact h.count_le_one settles_expires
  · exact h.count_le_one settles_issuedAt
  · exact h.count_le_one settles_authTime
  · exact h.count_le_one settles_signIn

/-- What typed claims are read from is not misstated. -/
theorem not_misstated_of_records (h : form.Records (.object raw) t) : ¬ Misstated raw := by
  intro hmisstated
  cases hmisstated with
  | repeated hname hcount => exact absurd (count_le_one h hname) (Nat.not_le.mpr hcount)
  | text hname hmem hother =>
    obtain ⟨s, hs⟩ := text_of_records h hname hmem
    exact hother s hs
  | time hname hmem hother =>
    obtain ⟨time, htime⟩ := time_of_records h hname hmem
    exact hother time htime
  | signIn hmem hobject hlist =>
    cases h.meant settles_signIn hmem with
    | object => exact hobject _ rfl
    | list => exact hlist _ rfl
  | tenantRepeated hmem hcount =>
    have hinner := h.meant settles_signIn hmem
    exact absurd (hinner.count_le_one SignInInfo.settles_tenant) (Nat.not_le.mpr hcount)
  | tenant hmem htenant hnull htext =>
    have hinner := (h.meant settles_signIn hmem).meant SignInInfo.settles_tenant htenant
    generalize t.signIn.tenant = a at hinner
    cases hinner with
    | null => exact hnull rfl
    | said hs => exact htext _ hs

theorem decode_of_misstated (hraw : Json.readRaw body = .ok (.object raw))
    (h : Misstated raw) : ∃ e, IdToken.decode body = .error e := by
  cases hdecode : IdToken.decode body with
  | error e => exact ⟨e, rfl⟩
  | ok t => exact absurd h (not_misstated_of_records (records_of_decode hdecode hraw))

end IdToken

/-! ## Verified tokens -/

/-- The claims of a verified token say what its typed claims say, as far as they are left in. -/
structure IdToken.Coherent (t : IdToken) : Prop where
  stripped : ∀ name ∈ standardClaims, t.claim? name = none
  uid : t.uid = t.subject
  authTime : Backed (t.claim? "auth_time") .ofInt64 0 t.authTime
  signIn : t.signIn.BackedBy (t.claim? "firebase")

namespace Verifier

variable {v : Verifier} {token : String} {t : IdToken} {p : Parts}

theorem claim?_settled (hdistinct : (names p.claims).Nodup) (name : String) :
    p.settled.claim? name =
      if IdToken.standardClaims.contains name then none else lookup name p.claims :=
  lookup_swapEraseAll hdistinct IdToken.standardClaims name

theorem coherent_settled (hdistinct : (names p.claims).Nodup) (h : p.token.Agrees p.claims) :
    p.settled.Coherent where
  stripped name hname := by
    rw [claim?_settled hdistinct, if_pos (List.contains_iff_mem.mpr hname)]
  uid := rfl
  authTime := by
    rw [claim?_settled hdistinct, if_neg (by decide)]
    exact h.authTime
  signIn := by
    rw [claim?_settled hdistinct, if_neg (by decide)]
    exact h.signIn

/-- A content is refused under the code for invalid tokens. -/
theorem code_of_checkContent {r : Rejection} (hr : v.checkContent token = .error r) :
    (r.error v.kind).code = v.kind.invalidCode := by
  let a : Attempt := ⟨v, token, 0, .error .cancelled⟩
  have hdecided : a.Decided Check.ofContent (v.reject (v.checkContent token)) :=
    Attempt.checkContent_decided
  rw [hr] at hdecided
  obtain ⟨c, hc, hfails⟩ := List.exists_of_findSome?_eq_some hdecided
  have hother : c ≠ .expiry ∧ c ≠ .keys := by
    revert hc
    cases c <;> decide
  exact (Attempt.other_error hfails hother.1 hother.2).1

theorem decoded_of_parts {s : Segments} {body : Bytes} (hs : Segments.split token = .ok s)
    (hbody : Segment.decodeBytes s.payload = .ok body) (hp : parts token = .ok p) :
    IdToken.decode body = .ok p.token ∧ Json.readObject body = .ok p.claims := by
  obtain ⟨s', hs', -, htyped, hclaims⟩ := segments_of_parts hp
  cases hs.symm.trans hs'
  rw [Segments.readPayload, Segment.decode, hbody] at htyped hclaims
  exact ⟨ok_of_mapError htyped, ok_of_mapError hclaims⟩

/-- Claims that are misstated refuse the token, and so does a payload that is no object. -/
theorem verify_of_misstated {s : Segments} {body : Bytes} (hs : Segments.split token = .ok s)
    (hbody : Segment.decodeBytes s.payload = .ok body)
    (h : ∀ raw, Json.readRaw body = .ok (.object raw) → IdToken.Misstated raw) :
    ∃ e, v.verify token = Call.fail e ∧ e.code = v.kind.invalidCode := by
  cases hc : v.checkContent token with
  | error r => exact ⟨_, verify_of_refused hc, code_of_checkContent hc⟩
  | ok got =>
    obtain ⟨-, p, hp, -⟩ := checkContent_eq_ok_iff.mp hc
    obtain ⟨htyped, hmembers⟩ := decoded_of_parts hs hbody hp
    obtain ⟨raw, hraw, -⟩ := readRaw_of_readObject hmembers
    have hrecords := IdToken.records_of_decode htyped hraw
    exact absurd (h raw hraw) (IdToken.not_misstated_of_records hrecords)

/-- What a verifier may rely on and hand out, of the two views of one payload. -/
structure SeesOnePayload (v : Verifier) (body : Bytes) : Prop where
  /-- A payload that decodes in both ways says the same in both. -/
  agrees : ∀ t members, IdToken.decode body = .ok t → Json.readObject body = .ok members →
    t.Agrees members
  /-- So the tenant is the one that the sign-in information names, if it names one. -/
  tenant : ∀ t members inner, IdToken.decode body = .ok t → Json.readObject body = .ok members →
    lookup "firebase" members = some (.object inner) →
    (∀ s, t.tenantId? = some s ↔ lookup "tenant" inner = some (.text s)) ∧
      (t.tenantId? = none ↔
        lookup "tenant" inner = none ∨ lookup "tenant" inner = some .null)
  /-- A payload that gives a claim twice or as something else has no typed claims. -/
  undecoded : ∀ raw, Json.readRaw body = .ok (.object raw) → IdToken.Misstated raw →
    ∃ e, IdToken.decode body = .error e
  /-- A token with such a payload, or with one that is no object, is refused at once. -/
  refused : ∀ token s, Segments.split token = .ok s →
    Segment.decodeBytes s.payload = .ok body →
    (∀ raw, Json.readRaw body = .ok (.object raw) → IdToken.Misstated raw) →
    ∃ e, v.verify token = Call.fail e ∧ e.code = v.kind.invalidCode
  /-- A token that comes out of a verification, however its questions are answered, has its typed
  claims from a payload that agrees with them, and what is left of the other claims agrees too. -/
  accepted : ∀ token s t, Segments.split token = .ok s →
    Segment.decodeBytes s.payload = .ok body → (v.verify token).MayEnd (.ok t) →
    t.Coherent ∧ ∃ typed members, IdToken.decode body = .ok typed ∧
      Json.readObject body = .ok members ∧ typed.Agrees members ∧
      t = { typed with uid := typed.subject, claims := t.claims } ∧
      ∀ name w, t.claim? name = some w → lookup name members = some w

theorem tenant_of_agrees {members inner : List (String × Json)} (h : t.Agrees members)
    (hinner : lookup "firebase" members = some (.object inner)) :
    Offered (lookup "tenant" inner) t.tenantId? := by
  rcases h.signIn with ⟨hnone, -⟩ | ⟨w, hw, -, hagrees⟩
  · rw [hnone] at hinner
    cases hinner
  · cases hw.symm.trans hinner
    exact hagrees.tenant

/-- **The typed view of a payload and the view that holds all claims never disagree.** -/
theorem sees_one_payload (v : Verifier) (body : Bytes) : v.SeesOnePayload body where
  agrees _ _ := IdToken.agrees_of_decode
  tenant t members inner htyped hmembers hinner := by
    obtain ⟨hsome, hnone⟩ :=
      tenant_of_agrees (IdToken.agrees_of_decode htyped hmembers) hinner
    exact ⟨hsome, hnone⟩
  undecoded _ := IdToken.decode_of_misstated
  refused _ _ := verify_of_misstated
  accepted token s t hs hbody hends := by
    obtain ⟨h, hc⟩ := checkContent_of_mayEnd hends
    obtain ⟨-, p, hp, -, -, -, rfl⟩ := checkContent_eq_ok_iff.mp hc
    obtain ⟨htyped, hmembers⟩ := decoded_of_parts hs hbody hp
    have hagrees := IdToken.agrees_of_decode htyped hmembers
    have hdistinct := nodup_of_readObject hmembers
    refine ⟨coherent_settled hdistinct hagrees, p.token, p.claims, htyped, hmembers, hagrees, rfl,
      ?_⟩
    intro name w hclaim
    rw [claim?_settled hdistinct] at hclaim
    split at hclaim
    · cases hclaim
    · exact hclaim

/-- An escape does not hide that a name comes twice. -/
example : ∃ raw, Json.readRaw (Text.bytes "\x7b\"sub\":\"a\",\"s\\u0075b\":\"b\"\x7d") =
    .ok (.object raw) ∧ IdToken.Misstated raw :=
  ⟨[("sub", .text "a"), ("sub", .text "b")], by cbv,
    .repeated (.inl (by decide : "sub" ∈ IdToken.textClaims)) (by decide)⟩

end Verifier

end IdentityTokens
