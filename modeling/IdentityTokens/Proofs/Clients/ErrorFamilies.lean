import IdentityTokens.Proofs.Clients.Incidents
import IdentityTokens.Proofs.Clients.Modes
import IdentityTokens.Proofs.Verifier.Tellings

/-! # Families of errors

Where a verification fails, the codes of its error tell where it failed: whether the token itself or
its user is refused, whether the token is only too old, or whether something went wrong on the way
that has nothing to do with it. Callers branch on that, so it is said of every error that a client
or the client of a tenant may end with, whatever else they are asked for at the time. -/
namespace IdentityTokens

open Call

/-! ## Where errors come from -/

inductive Origin where
  /-- There is no client for a tenant without a name. -/
  | unnamed
  /-- The first check that fails; where it is the one for keys, their source has failed. -/
  | check (check : Check)
  | tenant
  /-- Nothing was found out about the user. -/
  | lookup
  | disabled
  | revoked
deriving DecidableEq, Repr

/-- Whether it is the token, or its user, that is refused, and not for the token's age. -/
def Origin.refuses : Origin → Bool
  | check c => c ≠ .expiry && c ≠ .keys
  | tenant | disabled | revoked => true
  | unnamed | lookup => false

namespace Client

/-- How a verification for a scope comes to fail, and what it was told until then. -/
inductive Fails (c : Client) (scope : Scope) (unrevoked : Bool) (token : String) :
    Origin → List Event → AuthError → Prop
  | unnamed (h : scope = .tenant "") : Fails c scope unrevoked token .unnamed []
      (.invalidArgument .unknown "tenantID must be a non-empty string")
  | check {a : Attempt} {told : List Event} {check : Check} {e : AuthError}
      (hverifier : a.verifier = c.verifier scope.kind) (htoken : a.token = token)
      (hheard : a.Heard told) (hfirst : a.first? = some check) (he : a.failure? check = some e) :
      Fails c scope unrevoked token (.check check) told e
  | tenant {id : String} {t : IdToken} {told : List Event} (hscope : scope = .tenant id)
      (ht : (c.verify .idToken token).Ends told (.ok t)) (hne : t.tenantId? ≠ some id) :
      Fails c scope unrevoked token .tenant told (TenantClient.mismatch .idToken t)
  | lookup {t : IdToken} {es fs : List Event} {e : AuthError} (hunrevoked : unrevoked = true)
      (ht : (c.accept scope token).Ends es (.ok t))
      (he : ((c.usersOf scope).state t.uid).Ends fs (.error e)) :
      Fails c scope unrevoked token .lookup (es ++ fs) e
  | disabled {t : IdToken} {s : UserState} {es fs : List Event} (hunrevoked : unrevoked = true)
      (ht : (c.accept scope token).Ends es (.ok t))
      (hs : ((c.usersOf scope).state t.uid).Ends fs (.ok s)) (hdisabled : s.disabled = true) :
      Fails c scope unrevoked token .disabled (es ++ fs) (UserState.disabledError scope.kind)
  | revoked {t : IdToken} {s : UserState} {es fs : List Event} (hunrevoked : unrevoked = true)
      (ht : (c.accept scope token).Ends es (.ok t))
      (hs : ((c.usersOf scope).state t.uid).Ends fs (.ok s)) (hdisabled : s.disabled = false)
      (hrevoked : UserState.millis t.issuedAt < s.validAfter) :
      Fails c scope unrevoked token .revoked (es ++ fs) (UserState.revokedError scope.kind)

variable {c : Client} {scope : Scope} {unrevoked : Bool} {token : String} {told : List Event}
  {e : AuthError}

/-- A client fails to verify where a check of its verifier fails. -/
theorem fails_of_verify (scope : Scope) (h : (c.verify scope.kind token).Ends told (.error e)) :
    ∃ check, c.Fails scope unrevoked token (.check check) told e := by
  obtain ⟨a, hverifier, htoken, hheard, hdecided⟩ := Verifier.attempt_of_ends h
  obtain ⟨check, hfirst, he⟩ := hdecided.error_iff.mp rfl
  exact ⟨check, .check hverifier htoken hheard hfirst he⟩

/-- The token of a tenant may in addition name another one. -/
theorem fails_of_accept (h : (c.accept scope token).Ends told (.error e)) :
    ∃ o, c.Fails scope unrevoked token o told e := by
  cases scope with
  | project kind =>
    obtain ⟨check, hfails⟩ := fails_of_verify (.project kind) h
    exact ⟨_, hfails⟩
  | tenant id =>
    rw [accept, TenantClient.verify_eq] at h
    rcases h.of_bind with ⟨e', he, h⟩ | ⟨t, es, fs, rfl, ht, h⟩
    · cases he
      obtain ⟨check, hfails⟩ := fails_of_verify (.tenant id) h
      exact ⟨_, hfails⟩
    · split at h
      · cases (ends_done.mp h).2
      · rename_i hne
        obtain ⟨rfl, ⟨⟩⟩ := ends_done.mp h
        rw [List.append_nil]
        exact ⟨_, .tenant rfl ht hne⟩

/-- A user who is asked about may not be found out about, or be refused. -/
theorem fails_of_vet (h : ((c.usersOf scope).vet scope.kind (c.accept scope token)).Ends told
    (.error e)) : ∃ o, c.Fails scope true token o told e := by
  rcases h.of_bind with ⟨e', he, h⟩ | ⟨t, es, _, rfl, ht, h⟩
  · cases he
    exact fails_of_accept h
  rcases Ends.of_bind h with ⟨e', he, h⟩ | ⟨⟨⟩, _, _, rfl, -, h⟩
  swap
  · cases (ends_done.mp h).2
  cases he
  rcases Ends.of_bind h with ⟨e', he, h⟩ | ⟨s, fs, _, rfl, hs, h⟩
  · cases he
    exact ⟨_, .lookup rfl ht h⟩
  obtain ⟨rfl, he⟩ := ends_done.mp h
  rw [List.append_nil]
  rw [UserState.check] at he
  split at he
  · cases he
    exact ⟨_, .disabled rfl ht hs ‹_›⟩
  · split at he
    · cases he
      exact ⟨_, .revoked rfl ht hs (Bool.eq_false_iff.mpr ‹_›) ‹_›⟩
    · cases he

/-- **Every failure has its origin.** -/
theorem fails_of_operate (h : (c.operate (.verify scope unrevoked token)).Ends told (.error e)) :
    ∃ o, c.Fails scope unrevoked token o told e := by
  by_cases hunnamed : Unnamed (.verify scope unrevoked token)
  · rw [operate_unnamed hunnamed] at h
    obtain ⟨rfl, ⟨⟩⟩ := ends_done.mp h
    cases hunnamed
    exact ⟨_, .unnamed rfl⟩
  rw [operate_verify hunnamed] at h
  rcases Ends.of_bind h with ⟨e', he, h⟩ | ⟨t, _, _, rfl, -, h⟩
  swap
  · cases (ends_done.mp h).2
  cases he
  cases unrevoked with
  | false => exact fails_of_accept h
  | true => exact fails_of_vet h

end Client

/-! ## What codes tell -/

/-- The codes that speak of tokens of a kind. -/
def Kind.codes (kind : Kind) : List Code := [kind.invalidCode, kind.expiredCode, kind.revokedCode]

/-- The codes that speak of tokens, or of users as far as tokens are refused for them. -/
def Code.ofTokens : List Code :=
  Kind.idToken.codes ++ Kind.sessionCookie.codes ++ [.userDisabled, .tenantIdMismatch]

/-- Which of these codes an error has, by where it comes from. -/
def Origin.codes (kind : Kind) : Origin → List Code
  | check .expiry => [kind.expiredCode]
  | check .keys => []
  | check _ => [kind.invalidCode]
  | tenant => [.tenantIdMismatch, kind.invalidCode]
  | disabled => [.userDisabled, kind.invalidCode]
  | revoked => [kind.revokedCode, kind.invalidCode]
  | unnamed | lookup => []

/-- What the codes of an error tell that ended the verification of a token of a kind, by where the
error came from. -/
structure Family (kind : Kind) (o : Origin) (e : AuthError) : Prop where
  /-- They never speak of tokens of the other kind. -/
  otherKind : ∀ other, other ≠ kind → ∀ code ∈ other.codes, e.hasCode code = false
  invalid_iff : e.hasCode kind.invalidCode = true ↔ o.refuses = true
  category : e.hasCode kind.invalidCode = true → e.category = .invalidArgument
  expired_iff : e.hasCode kind.expiredCode = true ↔ o = .check .expiry
  revoked_iff : e.hasCode kind.revokedCode = true ↔ o = .revoked
  disabled_iff : e.hasCode .userDisabled = true ↔ o = .disabled
  tenant_iff : e.hasCode .tenantIdMismatch = true ↔ o = .tenant
  /-- A token that is only too old is not called invalid, -/
  aged : e.hasCode kind.expiredCode = true → e.hasCode kind.invalidCode = false
  /-- and one that is refused for its user or its tenant is, for one of the reasons. -/
  together : e.hasCode kind.revokedCode = true ∨ e.hasCode .userDisabled = true ∨
    e.hasCode .tenantIdMismatch = true → e.hasCode kind.invalidCode = true
  apart : ¬ (e.hasCode kind.revokedCode = true ∧ e.hasCode .userDisabled = true) ∧
    ¬ (e.hasCode kind.revokedCode = true ∧ e.hasCode .tenantIdMismatch = true) ∧
    ¬ (e.hasCode .userDisabled = true ∧ e.hasCode .tenantIdMismatch = true)

/-- The error has just the codes of its origin, among those that speak of tokens. -/
def AuthError.Shows (e : AuthError) (codes : List Code) : Prop :=
  ∀ code ∈ Code.ofTokens, (e.hasCode code = true ↔ code ∈ codes)

namespace AuthError

variable {e : AuthError}

theorem hasCode_iff {code : Code} : e.hasCode code = true ↔ code = e.code ∨ e.parent = some code := by
  rw [hasCode, Bool.or_eq_true, beq_iff_eq, beq_iff_eq, eq_comm]

theorem shows_code (hparent : e.parent = none) : e.Shows [e.code] := by
  intro code _
  rw [hasCode_iff, hparent, List.mem_singleton]
  exact or_iff_left nofun

theorem shows_parent {parent : Code} (hparent : e.parent = some parent) :
    e.Shows [e.code, parent] := by
  intro code _
  rw [hasCode_iff, hparent, List.mem_pair, Option.some.injEq, eq_comm (a := parent)]

theorem Incidental.hasCode_eq_false (h : e.Incidental) :
    ∀ code ∈ Code.ofTokens, e.hasCode code = false := by
  intro code hcode
  rw [← Bool.not_eq_true, hasCode_iff, h.parent]
  rintro (rfl | hparent)
  · rcases h.code with hc | hc | hc
    all_goals
      rw [hc] at hcode
      exact absurd hcode (by decide)
  · cases hparent

theorem Incidental.shows (h : e.Incidental) : e.Shows [] := fun code hcode =>
  iff_of_false (Bool.eq_false_iff.mp (h.hasCode_eq_false code hcode)) List.not_mem_nil

end AuthError

namespace Kind

theorem codes_subset (kind : Kind) : ∀ code ∈ kind.codes, code ∈ Code.ofTokens := by
  cases kind <;> decide

end Kind

namespace Origin

/-- Each of the codes stands for its own origin, and the one for invalid tokens for all that
refuse. -/
theorem mem_codes (kind : Kind) (o : Origin) :
    (kind.invalidCode ∈ o.codes kind ↔ o.refuses = true) ∧
    (kind.expiredCode ∈ o.codes kind ↔ o = .check .expiry) ∧
    (kind.revokedCode ∈ o.codes kind ↔ o = .revoked) ∧
    (.userDisabled ∈ o.codes kind ↔ o = .disabled) ∧
    (.tenantIdMismatch ∈ o.codes kind ↔ o = .tenant) := by
  rcases o with _ | check | _ | _ | _ | _
  case check => cases kind <;> cases check <;> decide
  all_goals cases kind <;> decide

theorem codes_check {check : Check} (hx : check ≠ .expiry) (hk : check ≠ .keys) (kind : Kind) :
    (Origin.check check).codes kind = [kind.invalidCode] := by
  cases check with
  | expiry => exact absurd rfl hx
  | keys => exact absurd rfl hk
  | _ => rfl

theorem codes_other {kind other : Kind} (h : other ≠ kind) (o : Origin) :
    ∀ code ∈ other.codes, code ∉ o.codes kind := by
  rcases o with _ | check | _ | _ | _ | _
  case check =>
    cases kind <;> cases other <;> first | exact absurd rfl h | (cases check <;> decide)
  all_goals cases kind <;> cases other <;> first | exact absurd rfl h | decide

end Origin

/-- What the codes of an error are decides what they tell. -/
theorem AuthError.Shows.family {kind : Kind} {o : Origin} {e : AuthError}
    (h : e.Shows (o.codes kind)) (hcategory : o.refuses = true → e.category = .invalidArgument) :
    Family kind o e := by
  obtain ⟨hinvalid, hexpired, hrevoked, hdisabled, htenant⟩ := Origin.mem_codes kind o
  have hown {code : Code} (hcode : code ∈ kind.codes) :
      e.hasCode code = true ↔ code ∈ o.codes kind := h code (kind.codes_subset code hcode)
  have hinvalid := (hown (by simp [Kind.codes])).trans hinvalid
  have hexpired := (hown (by simp [Kind.codes])).trans hexpired
  have hrevoked := (hown (by simp [Kind.codes])).trans hrevoked
  have hdisabled := (h _ (by decide)).trans hdisabled
  have htenant := (h _ (by decide)).trans htenant
  exact {
    otherKind := by
      intro other hne code hcode
      refine Bool.eq_false_iff.mpr fun hhas => ?_
      exact Origin.codes_other hne o code hcode ((h code (other.codes_subset code hcode)).mp hhas)
    invalid_iff := hinvalid
    category := fun hhas => hcategory (hinvalid.mp hhas)
    expired_iff := hexpired
    revoked_iff := hrevoked
    disabled_iff := hdisabled
    tenant_iff := htenant
    aged := by
      rw [hexpired, ← Bool.not_eq_true, hinvalid]
      rintro rfl
      decide
    together := by
      rw [hrevoked, hdisabled, htenant, hinvalid]
      rintro (rfl | rfl | rfl) <;> rfl
    apart := by
      rw [hrevoked, hdisabled, htenant]
      refine ⟨?_, ?_, ?_⟩ <;> rintro ⟨rfl, ⟨⟩⟩ }

/-! ## Every error -/

/-- Keys and users are got in ways of the library's own, and no token for it is asked for. -/
structure Client.BuiltIn (c : Client) : Prop where
  keys : ∀ kind, c.keys kind ≠ .custom
  users : ∃ l, c.users = .lookup l ∧ l.bearer ≠ .custom

namespace Attempt

variable {a : Attempt} {check : Check} {e : AuthError}

theorem parent_of_refuse {b : Bool} {r : Rejection} (h : a.refuse b r = some e) :
    e.parent = none := by
  rw [eq_of_refuse h]
  rfl

theorem parent_of_unread {α : Type} {part : Except CodecError α} (h : a.unread part = some e) :
    e.parent = none := by
  cases part with
  | error fault =>
    cases h
    rfl
  | ok _ => cases h

/-- A check gives its error no second code. -/
theorem parent_of_failure (h : a.failure? check = some e) (hk : check ≠ .keys) :
    e.parent = none := by
  cases check with
  | project | presence | segments => exact parent_of_refuse h
  | header | payload | object => exact parent_of_unread h
  | keyId =>
    obtain ⟨_, _, h⟩ := of_onRead h
    obtain ⟨_, _, h⟩ := of_onRead h
    exact parent_of_refuse h
  | algorithm | audience | issuer | subject | subjectLength | issuedAt | expiry =>
    obtain ⟨_, _, h⟩ := of_onRead h
    exact parent_of_refuse h
  | keys => exact absurd rfl hk
  | signature =>
    rw [failure?] at h
    split at h
    · obtain ⟨_, _, h⟩ := of_onRead h
      exact parent_of_refuse h
    · cases h

end Attempt

namespace Client

variable {c : Client} {scope : Scope} {unrevoked : Bool} {token : String} {told : List Event}
  {o : Origin} {e : AuthError}

theorem BuiltIn.usersOf (h : c.BuiltIn) (scope : Scope) :
    ∃ l, c.usersOf scope = .lookup l ∧ l.bearer ≠ .custom := by
  obtain ⟨l, hl, hbearer⟩ := h.users
  cases scope with
  | project kind => exact ⟨l, hl, hbearer⟩
  | tenant id =>
    rw [Client.usersOf, hl]
    split
    · exact ⟨l, rfl, hbearer⟩
    · exact ⟨l.forTenant id, rfl, hbearer⟩

theorem BuiltIn.incidental_keys (h : c.BuiltIn) {kind : Kind}
    (he : ((c.keys kind).keys kind).Ends told (.error e)) : e.Incidental :=
  KeySource.incidental_keys (h.keys kind) kind e he.mayEnd

theorem BuiltIn.incidental_users (h : c.BuiltIn) {uid : String}
    (he : ((c.usersOf scope).state uid).Ends told (.error e)) : e.Incidental := by
  obtain ⟨l, hl, hbearer⟩ := h.usersOf scope
  rw [hl] at he
  exact UserLookup.incidental_state hbearer uid e he.mayEnd

/-- The first check that fails has its own code, or the one that all others share. -/
theorem family_of_check (hbuilt : c.BuiltIn) {a : Attempt} {check : Check}
    (hverifier : a.verifier = c.verifier scope.kind) (hheard : a.Heard told)
    (hfirst : a.first? = some check) (he : a.failure? check = some e) :
    Family scope.kind (.check check) e := by
  have hkind : a.verifier.kind = scope.kind := by
    rw [hverifier]
    rfl
  by_cases hk : check = .keys
  · subst hk
    obtain ⟨es, cause, -, rfl, hcause⟩ := hheard.keys_of_first hfirst he
    rw [hverifier] at hcause
    have hincidental := hbuilt.incidental_keys hcause
    exact hincidental.certificateFetchFailed.shows.family fun hrefuses =>
      absurd hrefuses (by decide)
  have hparent := Attempt.parent_of_failure he hk
  by_cases hx : check = .expiry
  · subst hx
    obtain ⟨hcode, hcategory⟩ := Attempt.expiry_error he
    have hshows : e.Shows ((Origin.check .expiry).codes scope.kind) := by
      rw [Origin.codes, ← hkind, ← hcode]
      exact AuthError.shows_code hparent
    exact hshows.family fun _ => hcategory
  · obtain ⟨hcode, hcategory⟩ := Attempt.other_error he hx hk
    rw [hkind] at hcode
    have hshows : e.Shows ((Origin.check check).codes scope.kind) := by
      rw [Origin.codes_check hx hk, ← hcode]
      exact AuthError.shows_code hparent
    exact hshows.family fun _ => hcategory

theorem Fails.family (hbuilt : c.BuiltIn) (h : c.Fails scope unrevoked token o told e) :
    Family scope.kind o e := by
  cases h with
  | unnamed =>
    have hincidental : (AuthError.invalidArgument .unknown
        "tenantID must be a non-empty string").Incidental := ⟨rfl, .inl rfl⟩
    exact hincidental.shows.family nofun
  | check hverifier _ hheard hfirst he => exact family_of_check hbuilt hverifier hheard hfirst he
  | tenant hscope =>
    subst hscope
    exact AuthError.Shows.family (AuthError.shows_parent rfl) fun _ => rfl
  | lookup _ _ he => exact (hbuilt.incidental_users he).shows.family nofun
  | disabled => exact AuthError.Shows.family (AuthError.shows_parent rfl) fun _ => rfl
  | revoked => exact AuthError.Shows.family (AuthError.shows_parent rfl) fun _ => rfl

/-- What callers may rely on in the errors of a client, whatever it and its tenants' clients are
asked for. -/
structure ErrorsTell (c : Client) : Prop where
  /-- Every failure has its origin in what was told before it, -/
  verified : ∀ memory ops ts i scope unrevoked token e,
    (ops : List Operation)[i]? = some (.verify scope unrevoked token) →
    (c.course memory ops ts).result? i = some (.error e) →
    ∃ o, c.Fails scope unrevoked token o (IdentityTokens.own i (c.course memory ops ts).events) e
  /-- and whatever its origin is, its codes tell. -/
  family : ∀ scope unrevoked token o told e, c.Fails scope unrevoked token o told e →
    Family scope.kind o e
  /-- What goes wrong with keys or users says nothing of tokens. -/
  keys : ∀ kind told e, ((c.keys kind).keys kind).Ends told (.error e) →
    ∀ code ∈ Code.ofTokens, e.hasCode code = false
  users : ∀ scope uid told e, ((c.usersOf scope).state uid).Ends told (.error e) →
    ∀ code ∈ Code.ofTokens, e.hasCode code = false

/-- **The errors of a client tell what they come from.** -/
theorem errorsTell (h : c.BuiltIn) : c.ErrorsTell where
  verified := by
    intro memory ops ts i scope unrevoked token e hop hr
    exact fails_of_operate (ends_of_course hop hr)
  family := by
    intro scope unrevoked token o told e hfails
    exact hfails.family h
  keys := by
    intro kind told e he
    exact (h.incidental_keys he).hasCode_eq_false
  users := by
    intro scope uid told e he
    exact (h.incidental_users he).hasCode_eq_false

theorem errorsTell_blank : blankClient.BuiltIn ∧ blankClient.ErrorsTell := by
  have hbuilt : blankClient.BuiltIn := by
    refine ⟨fun kind => ?_, _, rfl, nofun⟩
    cases kind <;> nofun
  exact ⟨hbuilt, errorsTell hbuilt⟩

end Client

end IdentityTokens
