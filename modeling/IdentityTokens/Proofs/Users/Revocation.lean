import IdentityTokens.Client
import IdentityTokens.Proofs.Keys.Stages
import IdentityTokens.Proofs.Verifier.Decision

/-! # Checking for revocation fails closed

The user is asked about once a token is verified, and never before: whoever knows the users
hears of no token that was refused. What they answer can only take a verified token back,
and where they give no answer the token is refused as well. -/
namespace IdentityTokens

/-! ## Verifying asks nobody about users -/

/-- What a user lookup asks. Keys are only ever got, never posted for. -/
def Question.IsLookup : Question → Prop
  | .userState _ => True
  | .accessToken => True
  | .exchange r => r.method = .post
  | _ => False

/-- What is done on the way to verified tokens. -/
def Deed.BesidesLookup : Deed → Prop
  | .ask q => ¬ q.IsLookup
  | _ => True

open Deed Call

/-- What is done to get trusted keys: for those that are published one request is sent, bare. -/
def Deed.GetsKeys (source : KeySource) : Deed → Prop
  | .ask (.exchange r) => ∃ url, source = .published url ∧ Request.build .get url [] "" = .ok r
  | .ask q => ¬ q.IsLookup
  | _ => True

theorem Deed.GetsKeys.besidesLookup {source : KeySource} {d : Deed} (h : d.GetsKeys source) :
    d.BesidesLookup := by
  cases d with
  | ask q =>
    cases q with
    | exchange r =>
      obtain ⟨url, -, hr⟩ := h
      intro hpost
      exact Method.noConfusion ((Request.method_of_build hr).symm.trans hpost)
    | _ => exact h
  | _ => trivial

theorem StoredKeys.only_keys (kind : Kind) (path : String) :
    (StoredKeys.keys kind path).Only (GetsKeys (.stored path)) := by
  have hread : (StoredKeys.read path).Only (GetsKeys (.stored path)) := by
    refine ((only_question id).bind only_given).bind ?_
    intro r
    rcases r with f | b
    · exact only_fail _
    · exact (only_done _).bind fun _ => only_ok _
  refine ((only_question id).bind only_given).bind fun _ => (only_memory trivial).bind fun m => ?_
  split
  · exact only_ok _
  refine Only.behind trivial trivial ((only_memory trivial).bind fun m' => ?_)
  split
  · exact only_ok _
  · exact hread.bind fun s => (only_remember trivial _).bind fun _ => only_ok s

theorem KeySource.only_keys (source : KeySource) (kind : Kind) :
    (source.keys kind).Only (GetsKeys source) := by
  cases source with
  | fixed s => exact only_ok s
  | published url =>
    refine Only.behind trivial trivial ?_
    exact PublishedKeys.only_session trivial trivial id id fun r hr => ⟨url, rfl, hr⟩
  | stored path => exact StoredKeys.only_keys kind path
  | custom => exact (only_question id).bind only_done

theorem Verifier.only_verify (v : Verifier) (token : String) :
    (v.verify token).Only (GetsKeys v.keys) := by
  refine Only.bind (only_done _) fun p => Only.bind (only_question id) fun now => ?_
  refine Only.bind (only_done _) fun _ => ?_
  have hsigned : (v.checkSignature p.1 token).Only (GetsKeys v.keys) := by
    refine ((v.keys.only_keys v.kind).mapError _).bind ?_
    intro s
    split
    · exact only_ok ()
    · exact only_fail _
  cases v.emulator with
  | true => exact only_ok _
  | false => exact hsigned.bind fun _ => only_ok _

theorem Client.only_verify (c : Client) (kind : Kind) (token : String) :
    (c.verify kind token).Only BesidesLookup :=
  ((c.verifier kind).only_verify token).mono fun _ => GetsKeys.besidesLookup

theorem TenantClient.only_verify (c : TenantClient) (token : String) :
    (c.verify token).Only BesidesLookup :=
  (c.client.only_verify .idToken token).bind fun _ => (only_done _).bind fun _ => only_ok _

/-! ## The user of a verified token -/

theorem Verifier.uid_of_verify {v : Verifier} {token : String} {outside : Outside} {w : World}
    {t : IdToken} (h : ((v.verify token).run outside w).1 = .ok t) : t.uid = t.subject := by
  obtain ⟨header, hc⟩ := v.checkContent_of_verify token outside w h
  let a : Attempt := Attempt.ofRun v token outside w
  obtain ⟨-, typed, members, -, -, rfl⟩ := Attempt.checkContent_ok (a := a) hc
  rfl

namespace TenantClient

variable (c : TenantClient) (token : String) (outside : Outside) (w : World)

/-- A client of a tenant hands on what the client says, unless another tenant is named. -/
theorem run_verify :
    (c.verify token).run outside w =
      match (c.client.verify .idToken token).run outside w with
      | (.error e, w') => (.error e, w')
      | (.ok t, w') =>
        (if t.tenantId? = some c.tenant then .ok t else .error (mismatch .idToken t), w') := by
  rw [verify, run_bind]
  rcases (c.client.verify .idToken token).run outside w with ⟨_ | t, w'⟩
  · rfl
  dsimp only
  rw [run_bind, run_lift, checkTenant]
  by_cases h : t.tenantId? = some c.tenant <;> simp [h]

theorem of_verify {t : IdToken} (h : ((c.verify token).run outside w).1 = .ok t) :
    ((c.client.verify .idToken token).run outside w).1 = .ok t := by
  rw [run_verify] at h
  rcases hr : (c.client.verify .idToken token).run outside w with ⟨_ | t', w'⟩
  all_goals
    rw [hr] at h
    dsimp only at h
  · cases h
  · split at h
    · exact h
    · cases h

theorem run_verify_of_error {e : AuthError}
    (h : ((c.client.verify .idToken token).run outside w).1 = .error e) :
    (c.verify token).run outside w = (c.client.verify .idToken token).run outside w := by
  rw [run_verify]
  rcases hr : (c.client.verify .idToken token).run outside w with ⟨_ | t, w'⟩
  · rfl
  · rw [hr] at h
    cases h

theorem verify_of_mismatch {t : IdToken}
    (h : ((c.client.verify .idToken token).run outside w).1 = .ok t)
    (hne : t.tenantId? ≠ some c.tenant) :
    ((c.verify token).run outside w).1 = .error (mismatch .idToken t) := by
  rw [run_verify]
  rcases hr : (c.client.verify .idToken token).run outside w with ⟨_ | t', w'⟩
  all_goals
    rw [hr] at h
    cases h
  exact if_neg hne

end TenantClient

/-! ## The check -/

namespace UserState

theorem millis_lt_iff (seconds t : Int64) :
    millis seconds < t ↔ max (-2 ^ 63) (min (seconds.toInt * 1000) (2 ^ 63 - 1)) < t.toInt := by
  rw [Int64.lt_iff_toInt_lt, millis, toInt_clamp]

variable {s : UserState} {kind : Kind} {issuedAt : Int64}

theorem check_of_disabled (h : s.disabled = true) :
    s.check kind issuedAt = .error (disabledError kind) := by
  rw [check, if_pos h]

theorem check_of_revoked (h : s.disabled = false)
    (hlt : max (-2 ^ 63) (min (issuedAt.toInt * 1000) (2 ^ 63 - 1)) < s.validAfter.toInt) :
    s.check kind issuedAt = .error (revokedError kind) := by
  rw [check, h, if_neg Bool.false_ne_true, if_pos ((millis_lt_iff _ _).mpr hlt)]

theorem check_eq_ok_iff :
    s.check kind issuedAt = .ok () ↔ s.disabled = false ∧
      s.validAfter.toInt ≤ max (-2 ^ 63) (min (issuedAt.toInt * 1000) (2 ^ 63 - 1)) := by
  rw [← Int.not_lt, ← millis_lt_iff]
  cases h : s.disabled with
  | true => simp [check_of_disabled h]
  | false => simp [check, h]

end UserState

namespace Users

variable (users : Users) (kind : Kind) (outside : Outside) (w : World)

theorem run_check (t : IdToken) :
    (users.check kind t).run outside w =
      match (users.state t.uid).run outside w with
      | (.error e, w') => (.error e, w')
      | (.ok s, w') => (s.check kind t.issuedAt, w') := by
  rw [check, run_bind]
  rcases (users.state t.uid).run outside w with ⟨_ | s, w'⟩ <;> rfl

/-- A call that hands out a token, with the check of that token's user behind it. -/
def vet (plain : Call IdToken) : Call IdToken := do
  let t ← plain
  users.check kind t
  return t

/-- Where nothing is handed out, nobody is asked. -/
theorem run_vet_of_error {plain : Call IdToken} {e : AuthError} {w' : World}
    (h : plain.run outside w = (.error e, w')) :
    (users.vet kind plain).run outside w = (.error e, w') :=
  run_bind_error h

theorem run_vet_of_ok {plain : Call IdToken} {t : IdToken} {w' : World}
    (h : plain.run outside w = (.ok t, w')) :
    (users.vet kind plain).run outside w =
      match (users.state t.uid).run outside w' with
      | (.error e, w'') => (.error e, w'')
      | (.ok s, w'') => ((s.check kind t.issuedAt).map fun _ => t, w'') := by
  rw [vet, run_bind_ok h, run_bind, run_check]
  rcases (users.state t.uid).run outside w' with ⟨_ | s, w''⟩
  · rfl
  dsimp only
  rcases s.check kind t.issuedAt with e | ⟨⟩ <;> rfl

end Users

/-- How a checked run goes by a plain one from the same world, whatever the users' answers.
Where the plain run ends is where a user is asked about. -/
structure FailsClosed (users : Users) (kind : Kind) (outside : Outside) (w : World)
    (plain checked : Except AuthError IdToken × World) : Prop where
  /-- The plain run asks nothing of those who know the users. -/
  early : ∃ es, plain.2.events = w.events ++ es ∧ ∀ e ∈ es, ¬ e.question.IsLookup
  accepts : ∀ t, checked.1 = .ok t ↔
    plain.1 = .ok t ∧
      ∃ s, ((users.state t.subject).run outside plain.2).1 = .ok s ∧ s.disabled = false ∧
        s.validAfter.toInt ≤ max (-2 ^ 63) (min (t.issuedAt.toInt * 1000) (2 ^ 63 - 1))
  unverified : ∀ e, plain.1 = .error e → checked = plain
  /-- Looking up the subject is all that is done besides, and it is done once. -/
  asks : ∀ t, plain.1 = .ok t → checked.2 = ((users.state t.subject).run outside plain.2).2
  asksOnce : users = .custom → ∀ t, plain.1 = .ok t →
    checked.2.events = plain.2.events ++
      [⟨.userState t.subject, outside plain.2.events (.userState t.subject)⟩]
  unanswered : ∀ t e, plain.1 = .ok t →
    ((users.state t.subject).run outside plain.2).1 = .error e → checked.1 = .error e
  disabled : ∀ t s, plain.1 = .ok t →
    ((users.state t.subject).run outside plain.2).1 = .ok s → s.disabled = true →
    ∃ e, checked.1 = .error e ∧ e.code = .userDisabled ∧ e.parent = some kind.invalidCode
  revoked : ∀ t s, plain.1 = .ok t →
    ((users.state t.subject).run outside plain.2).1 = .ok s → s.disabled = false →
    max (-2 ^ 63) (min (t.issuedAt.toInt * 1000) (2 ^ 63 - 1)) < s.validAfter.toInt →
    ∃ e, checked.1 = .error e ∧ e.code = kind.revokedCode ∧ e.parent = some kind.invalidCode

namespace Users

variable {users : Users} {kind : Kind} {outside : Outside} {w w' : World} {plain : Call IdToken}
  {t : IdToken}

theorem run_custom (uid : String) :
    (Users.custom.state uid).run outside w =
      (outside w.events (.userState uid),
        w.add ⟨.userState uid, outside w.events (.userState uid)⟩) := by
  rw [state, Call.userState, run_bind, run_question]
  cases w.cancelled <;> rfl

theorem failsClosed_of_error {e : AuthError} (hp : plain.run outside w = (.error e, w'))
    (hearly : ∃ es, w'.events = w.events ++ es ∧ ∀ e ∈ es, ¬ e.question.IsLookup) :
    FailsClosed users kind outside w (.error e, w') ((users.vet kind plain).run outside w) := by
  rw [run_vet_of_error users kind outside w hp]
  exact {
    early := hearly
    accepts := fun _ => ⟨fun h => (nomatch h), fun h => (nomatch h.1)⟩
    unverified := fun _ _ => rfl
    asks := fun _ h => (nomatch h)
    asksOnce := fun _ _ h => (nomatch h)
    unanswered := fun _ _ h => (nomatch h)
    disabled := fun _ _ h => (nomatch h)
    revoked := fun _ _ h => (nomatch h) }

theorem failsClosed_of_ok (hp : plain.run outside w = (.ok t, w')) (huid : t.uid = t.subject)
    (hearly : ∃ es, w'.events = w.events ++ es ∧ ∀ e ∈ es, ¬ e.question.IsLookup) :
    FailsClosed users kind outside w (.ok t, w') ((users.vet kind plain).run outside w) := by
  have hvet := run_vet_of_ok users kind outside w hp
  -- The check asks about the user, which is the subject the statement speaks of.
  rw [huid] at hvet
  have hworld : ((users.vet kind plain).run outside w).2 =
      ((users.state t.subject).run outside w').2 := by
    rw [hvet]
    rcases (users.state t.subject).run outside w' with ⟨_ | s, w''⟩ <;> rfl
  have hanswer : ∀ s, ((users.state t.subject).run outside w').1 = .ok s →
      ((users.vet kind plain).run outside w).1 = (s.check kind t.issuedAt).map fun _ => t := by
    intro s hs
    rw [hvet]
    rcases hr : (users.state t.subject).run outside w' with ⟨_ | s', w''⟩
    all_goals
      rw [hr] at hs
      cases hs
    rfl
  have hnone : ∀ e, ((users.state t.subject).run outside w').1 = .error e →
      ((users.vet kind plain).run outside w).1 = .error e := by
    intro e he
    rw [hvet]
    rcases hr : (users.state t.subject).run outside w' with ⟨e' | s, w''⟩
    all_goals
      rw [hr] at he
      cases he
    rfl
  refine {
    early := hearly
    accepts := fun t' => ?accepts
    unverified := fun _ h => (nomatch h)
    asks := ?asks
    asksOnce := ?asksOnce
    unanswered := ?unanswered
    disabled := ?disabled
    revoked := ?revoked }
  case asks =>
    rintro _ ⟨⟩
    exact hworld
  case asksOnce =>
    rintro rfl _ ⟨⟩
    rw [hworld, run_custom]
    rfl
  case unanswered =>
    rintro _ e ⟨⟩ he
    exact hnone e he
  case disabled =>
    rintro _ s ⟨⟩ hs hd
    rw [hanswer s hs, UserState.check_of_disabled hd]
    exact ⟨_, rfl, rfl, rfl⟩
  case revoked =>
    rintro _ s ⟨⟩ hs hd hlt
    rw [hanswer s hs, UserState.check_of_revoked hd hlt]
    exact ⟨_, rfl, rfl, rfl⟩
  case accepts =>
    constructor
    · intro h
      rcases hs : ((users.state t.subject).run outside w').1 with e | s
      · rw [hnone e hs] at h
        cases h
      rw [hanswer s hs] at h
      rcases hc : s.check kind t.issuedAt with e | ⟨⟩
      all_goals
        rw [hc] at h
        cases h
      exact ⟨rfl, s, hs, UserState.check_eq_ok_iff.mp hc⟩
    · rintro ⟨⟨⟩, s, hs, hc⟩
      rw [hanswer s hs, UserState.check_eq_ok_iff.mpr hc]
      rfl

/-- A check fails closed if it stands behind a call that asks nothing of its users and
hands out tokens whose user is the subject. -/
theorem vet_failsClosed (honly : plain.Only BesidesLookup)
    (huid : ∀ t, (plain.run outside w).1 = .ok t → t.uid = t.subject) :
    FailsClosed users kind outside w (plain.run outside w)
      ((users.vet kind plain).run outside w) := by
  have hearly := honly.run outside w
  rcases hp : plain.run outside w with ⟨e | t, w'⟩
  all_goals rw [hp] at hearly
  · exact failsClosed_of_error hp hearly
  · exact failsClosed_of_ok hp (huid t (by rw [hp])) hearly

end Users

/-- **Checking for revocation fails closed, for every client and for those of a tenant.** A
token is accepted exactly if it is verified and its user is known, not disabled, and has not
revoked what was issued then; and nobody is asked about the user of a token that was not
verified or, at a tenant's, belongs to another tenant. -/
theorem verifyUnrevoked_failsClosed (outside : Outside) (w : World) (token : String) :
    (∀ (c : Client) (kind : Kind),
      FailsClosed c.users kind outside w ((c.verify kind token).run outside w)
        ((c.verifyUnrevoked kind token).run outside w)) ∧
    (∀ c : TenantClient,
      FailsClosed c.client.users .idToken outside w ((c.verify token).run outside w)
        ((c.verifyUnrevoked token).run outside w) ∧
      (∀ e, ((c.client.verify .idToken token).run outside w).1 = .error e →
        (c.verify token).run outside w = (c.client.verify .idToken token).run outside w) ∧
      (∀ t, ((c.client.verify .idToken token).run outside w).1 = .ok t →
        t.tenantId? ≠ some c.tenant →
        ∃ e, ((c.verify token).run outside w).1 = .error e ∧ e.code = .tenantIdMismatch ∧
          e.parent = some .idTokenInvalid)) := by
  constructor
  · intro c kind
    exact Users.vet_failsClosed (c.only_verify kind token) fun t ht => Verifier.uid_of_verify ht
  · intro c
    refine ⟨?_, fun e he => c.run_verify_of_error token outside w he, ?_⟩
    · refine Users.vet_failsClosed (c.only_verify token) ?_
      intro t ht
      exact Verifier.uid_of_verify (c.of_verify token outside w ht)
    · intro t ht hne
      exact ⟨_, c.verify_of_mismatch token outside w ht hne, rfl, rfl⟩

end IdentityTokens
