import IdentityTokens.Proofs.Base64.Canonical
import IdentityTokens.Proofs.Call.Alone
import IdentityTokens.Proofs.Json.Values
import IdentityTokens.Proofs.Platform
import IdentityTokens.Proofs.Signers.Accounts
import IdentityTokens.Proofs.Users.Lookups

/-! # What a remote signer makes of its answers

A remote signer sends at most two requests. The answer to the first names the account, unless the
account is known, and the answer to the second holds the signature. What comes of a signature is
decided by these answers alone: there is a signature if both are what they have to be, and each
way for them not to be tells which error there is instead. -/
namespace IdentityTokens

/-! ## Requests and their answers -/

namespace Web

open Call

variable {outside : Outside} {w w' : World} {r : Response} {e : AuthError} {request : Request}

/-- An answer comes to who is not cancelled, out of one exchange. -/
theorem exchange_of_send (h : (send (.ok request)).run outside w = (.ok r, w')) :
    w' = w.add ⟨.exchange request, some (.answered r)⟩ := by
  obtain ⟨outcome, w₁, hexchange, hlast⟩ := ok_of_run_bind h
  obtain ⟨hreceived, rfl⟩ := Prod.mk.inj hlast
  obtain ⟨a, w₂, hquestion, hgiven⟩ := ok_of_run_bind hexchange
  rw [run_question] at hquestion
  cases a with
  | none => cases (Prod.mk.inj hgiven).1
  | some o =>
    obtain ⟨ho, rfl⟩ := Prod.mk.inj hgiven
    cases ho
    split at hquestion
    · rename_i a ha
      split at ha
      · cases ha
        cases hquestion
      · cases ha
    · obtain ⟨hanswer, rfl⟩ := Prod.mk.inj hquestion
      rw [Except.ok.inj hanswer]
      cases outcome with
      | answered response =>
        cases hreceived
        rfl
      | refused | timedOut | lost | truncated => cases hreceived

/-- What is answered was built and sent. -/
theorem built_of_send {built : Except TransportFault Request}
    (h : (send built).run outside w = (.ok r, w')) :
    ∃ request, built = .ok request ∧ w' = w.add ⟨.exchange request, some (.answered r)⟩ := by
  cases built with
  | error f =>
    obtain ⟨_, w₁, -, hlast⟩ := ok_of_run_bind h
    cases (Prod.mk.inj hlast).1
  | ok request => exact ⟨request, rfl, exchange_of_send h⟩

/-- A question that sends no post. -/
def Unposted (d : Deed) : Prop := ∀ r, d = .ask (.exchange r) → r.method ≠ .post

theorem not_posts_of_unposted {e : Event} (h : Unposted (.ask e.question)) : ¬ e.Posts := by
  rintro ⟨r, hr, hpost⟩
  obtain ⟨q, a⟩ := e
  cases q with
  | exchange request =>
    cases hr
    exact h r rfl hpost
  | _ => cases hr

/-- An answer to a post is the last that comes of it, after a token that nothing is sent for. -/
theorem posted_of_post {bearer : Bearer} {url : String} {body : Json}
    (h : (post bearer url body).run outside w = (.ok r, w')) :
    ∃ before token request, w'.events = w.events ++ before ++
        [⟨.exchange request, some (.answered r)⟩] ∧ (∀ e ∈ before, ¬ e.Posts) ∧
      Request.build .post url (jsonHeader :: Bearer.headers token) body.compact = .ok request := by
  obtain ⟨token, w₁, htoken, hsend⟩ := ok_of_run_bind h
  obtain ⟨request, hbuilt, rfl⟩ := built_of_send hsend
  have honly : bearer.token.Only Unposted := by
    cases bearer with
    | nobody => exact only_ok _
    | fixed token => exact only_ok _
    | custom => exact ((only_question nofun).bind only_done).bind fun _ => only_ok _
  obtain ⟨before, hbefore, hquiet⟩ := honly.run outside w
  rw [htoken] at hbefore
  refine ⟨before, token, request, ?_, fun e he => not_posts_of_unposted (hquiet e he), hbuilt⟩
  rw [World.add, hbefore]

end Web

namespace RemoteSigner

open Call Json Json.Form

variable {s : RemoteSigner} {outside : Outside} {w w₁ w₂ w' : World} {r : Response}
  {e : AuthError} {email : String} {message signature : Bytes}

/-! ## The account -/

theorem only_discover (s : RemoteSigner) {P : Deed → Prop} (hgo : P (.ask .goAhead))
    (hget : ∀ r : Request, r.method = .get → P (.ask (.exchange r))) : s.discover.Only P :=
  (only_send hgo fun _ hr => hget _ (Request.method_of_build hr)).bind fun _ => only_done _

theorem accountNamed_eq_ok_iff :
    accountNamed r = .ok email ↔
      (200 ≤ r.status ∧ r.status < 300) ∧ email = Text.trim (Text.ofBytesLossy r.body) ∧
        email ≠ "" := by
  rw [accountNamed]
  by_cases hs : 200 ≤ r.status ∧ r.status < 300
  · rw [UserLookup.isSuccess_iff.mpr hs, Bool.not_true, if_neg Bool.false_ne_true]
    dsimp only [Response.text]
    by_cases hempty : Text.trim (Text.ofBytesLossy r.body) = ""
    · rw [hempty]
      simp
    · rw [if_neg hempty]
      constructor
      · rintro ⟨⟩
        exact ⟨hs, rfl, hempty⟩
      · rintro ⟨-, rfl, -⟩
        rfl
  · simp [UserLookup.isSuccess_eq_false hs, hs]

/-- The account that a run signs as, and the world once it is known. -/
inductive KnownAs (s : RemoteSigner) (outside : Outside) (w : World) : String → World → Prop
  | given {email : String} (h : s.account = some email) : KnownAs s outside w email w
  | remembered {email : String} (h : s.account = none) (hmemory : w.memory.account = some email) :
      KnownAs s outside w email w
  | discovered {email : String} {r : Response} {w₁ : World} (h : s.account = none)
      (hmemory : w.memory.account = none)
      (hanswer : (Web.get s.accountUrl [flavorHeader]).run outside w = (.ok r, w₁))
      (hstatus : 200 ≤ r.status ∧ r.status < 300)
      (hemail : email = Text.trim (Text.ofBytesLossy r.body)) (hne : email ≠ "") :
      KnownAs s outside w email { w₁ with memory := w₁.memory.setAccount email }

theorem run_email_of_unknown (h : s.account = none) (hmemory : w.memory.account = none) :
    s.email.run outside w =
      match s.discover.run outside w with
      | (.ok email, w₁) => (.ok email, { w₁ with memory := w₁.memory.setAccount email })
      | (.error e, w₁) => (.error (guidance e), w₁) := by
  rw [email, h]
  dsimp only
  rw [discovered_eq, run, hmemory]
  dsimp only
  rw [run_mapError, run_behind, Gate.isInterruptible, Bool.and_false, if_neg Bool.false_ne_true,
    remembered_eq, run, hmemory]
  dsimp only
  rw [run_bind]
  rcases s.discover.run outside w with ⟨e | email, w₁⟩ <;> rfl

theorem run_discover :
    s.discover.run outside w =
      match (Web.get s.accountUrl [flavorHeader]).run outside w with
      | (.ok r, w₁) => (accountNamed r, w₁)
      | (.error e, w₁) => (.error e, w₁) := by
  rw [discover, run_bind]
  rcases (Web.get s.accountUrl [flavorHeader]).run outside w with ⟨e | r, w₁⟩ <;> rfl

theorem run_email_of_knownAs (h : s.KnownAs outside w email w') :
    s.email.run outside w = (.ok email, w') := by
  cases h with
  | given h => rw [RemoteSigner.email, h]; rfl
  | remembered h hmemory =>
    rw [RemoteSigner.email, h]
    dsimp only
    rw [discovered_eq, run, hmemory]
    rfl
  | discovered h hmemory hanswer hstatus hemail hne =>
    rw [run_email_of_unknown h hmemory, run_discover, hanswer]
    dsimp only
    rw [accountNamed_eq_ok_iff.mpr ⟨hstatus, hemail, hne⟩]

theorem run_email_eq_ok_iff :
    s.email.run outside w = (.ok email, w') ↔ s.KnownAs outside w email w' := by
  refine ⟨fun h => ?_, run_email_of_knownAs⟩
  cases haccount : s.account with
  | some known =>
    obtain ⟨he, rfl⟩ := Prod.mk.inj ((run_email_of_knownAs (.given haccount)).symm.trans h)
    exact Except.ok.inj he ▸ .given haccount
  | none =>
  cases hmemory : w.memory.account with
  | some known =>
    obtain ⟨he, rfl⟩ :=
      Prod.mk.inj ((run_email_of_knownAs (.remembered haccount hmemory)).symm.trans h)
    exact Except.ok.inj he ▸ .remembered haccount hmemory
  | none =>
    rw [run_email_of_unknown haccount hmemory, run_discover] at h
    rcases hanswer : (Web.get s.accountUrl [flavorHeader]).run outside w with ⟨e | r, w₁⟩
    · rw [hanswer] at h
      cases (Prod.mk.inj h).1
    rw [hanswer] at h
    dsimp only at h
    cases hnamed : accountNamed r with
    | error e =>
      rw [hnamed] at h
      cases (Prod.mk.inj h).1
    | ok found =>
      rw [hnamed] at h
      obtain ⟨he, rfl⟩ := Prod.mk.inj h
      obtain ⟨hstatus, hemail, hne⟩ := accountNamed_eq_ok_iff.mp hnamed
      exact Except.ok.inj he ▸ .discovered haccount hmemory hanswer hstatus hemail hne

/-! ## The signature -/

/-- What is posted is read as one member that holds the message. -/
theorem readObject_signBody (message : Bytes) :
    Json.readObject (Text.bytes (signBody message).compact) =
      .ok [("bytesToSign", .text (Base64.encodeText Base64.standard message))] := by
  refine Json.readObject_compact (.object (List.nodup_singleton _) fun m hm => ?_)
  rw [List.mem_singleton.mp hm]
  exact .text _

theorem decodeText_eq_ok_iff {text : String} {bytes : Bytes} :
    Base64.decodeText Base64.standard text = .ok bytes ↔
      text = Base64.encodeText Base64.standard bytes := by
  constructor
  · intro h
    exact (Base64.encodeText_of_decodeText Base64.sound_standard Base64.exact_standard h).symm
  · rintro rfl
    exact Base64.decodeText_encodeText Base64.sound_standard bytes

/-- A body decodes to the text of its one member that is named for a signature. -/
theorem decode_signature_eq_ok_iff {body : Bytes} {w : Json} {text : String}
    (hraw : Json.readRaw body = .ok w) :
    answerForm.decode body = .ok text ↔
      ObjectOrList 1 1 w ∧ given "signature" 0 w = [.text text] := by
  have hshaped : answerForm.Shaped w ↔ ObjectOrList 1 1 w ∧ given "signature" 0 w ≠ [] := by
    rw [shaped_iff_of_not_always (by simp [answerForm, field, deepField])]
    simp [answerForm, field, deepField]
  have hreads : ReadsAs answerForm.read _ := readsAs_of_single rfl rfl (fun _ => rfl) readsAs_text
  rw [decode, hreads.document hraw, hshaped]
  constructor
  · rintro ⟨⟨hw, hgiven⟩, ⟨hnone, -⟩ | ⟨u, hu, rfl⟩⟩
    · exact absurd hnone hgiven
    · exact ⟨hw, hu⟩
  · rintro ⟨hw, hgiven⟩
    refine ⟨⟨hw, ?_⟩, .inr ⟨_, hgiven, rfl⟩⟩
    rw [hgiven]
    exact List.cons_ne_nil _ _

/-- A success holds a signature in the one way that there is to write it. -/
theorem signatureOf_eq_ok_iff :
    signatureOf r = .ok signature ↔ (200 ≤ r.status ∧ r.status < 300) ∧
      answerForm.decode r.body = .ok (Base64.encodeText Base64.standard signature) := by
  rw [signatureOf]
  by_cases hs : 200 ≤ r.status ∧ r.status < 300
  · rw [UserLookup.isSuccess_iff.mpr hs]
    cases hdecode : answerForm.decode r.body with
    | error e => exact iff_of_false nofun fun h => nomatch h.2
    | ok text =>
      change (Base64.decodeText Base64.standard text).mapError _ = .ok signature ↔ _
      constructor
      · intro h
        rw [decodeText_eq_ok_iff.mp (ok_of_mapError h)]
        exact ⟨hs, rfl⟩
      · rintro ⟨-, htext⟩
        rw [Except.ok.inj htext, Base64.decodeText_encodeText Base64.sound_standard]
        rfl
  · rw [UserLookup.isSuccess_eq_false hs]
    exact iff_of_false nofun fun h => hs h.1

theorem signatureOf_of_failure (h : ¬ (200 ≤ r.status ∧ r.status < 300)) :
    signatureOf r = .error (rejected r) := by
  rw [signatureOf, UserLookup.isSuccess_eq_false h]
  rfl

/-- A success without a signature is an error of no category. -/
theorem unknown_of_signatureOf (hs : 200 ≤ r.status ∧ r.status < 300)
    (h : signatureOf r = .error e) : e.category = .unknown ∧ e.code = .unknown := by
  rw [signatureOf, UserLookup.isSuccess_iff.mpr hs] at h
  cases hdecode : answerForm.decode r.body with
  | error e' =>
    rw [hdecode] at h
    cases h
    exact ⟨rfl, rfl⟩
  | ok text =>
    rw [hdecode] at h
    change (Base64.decodeText Base64.standard text).mapError _ = .error e at h
    cases hbytes : Base64.decodeText Base64.standard text with
    | error f =>
      rw [hbytes] at h
      cases h
      exact ⟨rfl, rfl⟩
    | ok bytes =>
      rw [hbytes] at h
      cases h

theorem rejected_category :
    (rejected r).category = (AuthError.ofPlatformResponse r.status r.body).category := by
  rw [rejected]
  split <;> rfl

theorem rejected_message :
    (rejected r).message = (AuthError.ofPlatformResponse r.status r.body).message := by
  rw [rejected]
  split <;> rfl

theorem rejected_code :
    (rejected r).code =
      if (rejected r).category = .permissionDenied then .insufficientPermission else .unknown := by
  rw [rejected_category, rejected]
  split <;> rfl

/-! ## Signing -/

theorem run_sign_of_account (h : s.KnownAs outside w email w₁) :
    (s.sign message).run outside w =
      match (Web.post s.bearer (s.signUrl email) (signBody message)).run outside w₁ with
      | (.ok r, w₂) => (signatureOf r, w₂)
      | (.error e, w₂) => (.error e, w₂) := by
  rw [sign, run_bind_ok (run_email_of_knownAs h), run_bind]
  rcases (Web.post s.bearer (s.signUrl email) (signBody message)).run outside w₁ with
    ⟨e | r, w₂⟩ <;> rfl

theorem run_sign_eq_ok_iff :
    (s.sign message).run outside w = (.ok signature, w') ↔
      ∃ email w₁ r, s.KnownAs outside w email w₁ ∧
        (Web.post s.bearer (s.signUrl email) (signBody message)).run outside w₁ = (.ok r, w') ∧
        (200 ≤ r.status ∧ r.status < 300) ∧
        answerForm.decode r.body = .ok (Base64.encodeText Base64.standard signature) := by
  constructor
  · intro h
    obtain ⟨email, w₁, hemail, hrest⟩ := ok_of_run_bind h
    obtain ⟨r, w₂, hpost, hlast⟩ := ok_of_run_bind hrest
    obtain ⟨hsignature, rfl⟩ := Prod.mk.inj hlast
    exact ⟨email, w₁, r, run_email_eq_ok_iff.mp hemail, hpost, signatureOf_eq_ok_iff.mp hsignature⟩
  · rintro ⟨email, w₁, r, hknown, hpost, hsignature⟩
    rw [run_sign_of_account hknown, hpost]
    exact congrArg (·, w') (signatureOf_eq_ok_iff.mpr hsignature)

/-- Where the account is not found out nothing is posted. -/
theorem run_sign_of_undiscovered (h : s.account = none) (hmemory : w.memory.account = none)
    (hdiscover : s.discover.run outside w = (.error e, w₁)) :
    (s.sign message).run outside w = (.error (guidance e), w₁) ∧ w₁.memory = w.memory ∧
      ∃ es, w₁.events = w.events ++ es ∧ ∀ e ∈ es, ¬ e.Posts := by
  have hemail : s.email.run outside w = (.error (guidance e), w₁) := by
    rw [run_email_of_unknown h hmemory, hdiscover]
  have hkeeps := (only_discover s (by exact nofun) fun _ _ => nofun).memory_run outside w
  have honly : s.discover.Only Web.Unposted :=
    only_discover s nofun fun r hr request hrequest => by
      cases hrequest
      rw [hr]
      exact nofun
  obtain ⟨es, hes, hquiet⟩ := honly.run outside w
  rw [hdiscover] at hkeeps hes
  exact ⟨run_bind_error hemail, hkeeps, es, hes,
    fun e he => Web.not_posts_of_unposted (hquiet e he)⟩

/-- What a signature of a message comes to, for each outcome of the two requests. -/
structure SignsByAnswers (s : RemoteSigner) (message : Bytes) : Prop where
  /-- A body that is a value holds a signature in the one member that is named for it, -/
  decodes : ∀ body w, Json.readRaw body = .ok w → ∀ text, answerForm.decode body = .ok text ↔
    ObjectOrList 1 1 w ∧ given "signature" 0 w = [.text text]
  /-- and what it tells of an error in an object within it. -/
  envelops : ∀ body w, Json.readRaw body = .ok w → ∀ d,
    AuthError.envelopeForm.decode body = .ok d ↔ AuthError.Envelops w d
  /-- There is a signature if the account is known or found out, and a success holds it in
  canonical base 64 with padding. -/
  signs_iff : ∀ outside w signature w',
    (s.sign message).run outside w = (.ok signature, w') ↔
      ∃ email w₁ r, s.KnownAs outside w email w₁ ∧
        (Web.post s.bearer (s.signUrl email) (signBody message)).run outside w₁ = (.ok r, w') ∧
        (200 ≤ r.status ∧ r.status < 300) ∧
        answerForm.decode r.body = .ok (Base64.encodeText Base64.standard signature)
  /-- The answer to the last request, the one post, is where the signature is from. The request
  holds the message, and writing the signature again gives the text of the answer. -/
  posted : ∀ outside w signature w', (s.sign message).run outside w = (.ok signature, w') →
    ∃ email w₁ before request r text sent, s.KnownAs outside w email w₁ ∧
      w'.events = w₁.events ++ before ++ [⟨.exchange request, some (.answered r)⟩] ∧
      (∀ e ∈ before, ¬ e.Posts) ∧ request.method = .post ∧
      Json.readObject (Text.bytes request.body) = .ok [("bytesToSign", .text sent)] ∧
      Base64.decodeText Base64.standard sent = .ok message ∧
      answerForm.decode r.body = .ok text ∧ Base64.encodeText Base64.standard signature = text
  /-- Where the account is not found out nothing is posted, and guidance is given once. -/
  undiscovered : ∀ outside w e w₁, s.account = none → w.memory.account = none →
    s.discover.run outside w = (.error e, w₁) →
    (s.sign message).run outside w = (.error (guidance e), w₁) ∧
      ∃ es, w₁.events = w.events ++ es ∧ ∀ e ∈ es, ¬ e.Posts
  /-- It leaves the category and the code, and what was cancelled as it is. -/
  guided : ∀ e, (e.category = .cancelled → guidance e = e) ∧ (e.category ≠ .cancelled →
    guidance e = ⟨e.category, e.code, none, "failed to determine service account: " ++ e.message ++
      "; initialize the SDK with service account credentials or specify a service account with " ++
      "iam.serviceAccounts.signBlob permission; refer to " ++
      "https://firebase.google.com/docs/auth/admin/create-custom-tokens for more details on " ++
      "creating custom tokens"⟩)
  /-- An answer that is no success is an error of its own. -/
  rejected : ∀ outside w email w₁ r w₂, s.KnownAs outside w email w₁ →
    (Web.post s.bearer (s.signUrl email) (signBody message)).run outside w₁ = (.ok r, w₂) →
    ¬ (200 ≤ r.status ∧ r.status < 300) →
    (s.sign message).run outside w = (.error (rejected r), w₂)
  /-- A permission is what it lacks if that is its category, and then alone. -/
  permission : ∀ r, ((RemoteSigner.rejected r).code = .insufficientPermission ↔
      (RemoteSigner.rejected r).category = .permissionDenied) ∧
    ((RemoteSigner.rejected r).code = .insufficientPermission ∨
      (RemoteSigner.rejected r).code = .unknown)
  /-- The category is the one that the body names, if it can be read and names one. -/
  category : ∀ r, (∀ c, AuthError.NamesCategory r.body c → (RemoteSigner.rejected r).category = c) ∧
    ((∀ c, ¬ AuthError.NamesCategory r.body c) →
      (RemoteSigner.rejected r).category = .ofHttpStatus r.status)
  /-- Recognised are the names of the categories, and two more for conflicts. -/
  recognised : ∀ status c, Category.ofPlatformStatus? status = some c ↔
    status = c.name ∨ c = .conflict ∧ (status = "ALREADY_EXISTS" ∨ status = "ABORTED")
  /-- The message is the one that the body tells, if it can be read and tells one. -/
  told : ∀ r,
    (∀ text, AuthError.TellsMessage r.body text → (RemoteSigner.rejected r).message = text) ∧
    ((∀ text, ¬ AuthError.TellsMessage r.body text) → (RemoteSigner.rejected r).message =
      "unexpected http response with status: " ++ Nat.repr r.status ++ "\n" ++
        Text.ofBytesLossy r.body)
  /-- A success without such a signature is an error as well. -/
  unreadable : ∀ outside w email w₁ r w₂, s.KnownAs outside w email w₁ →
    (Web.post s.bearer (s.signUrl email) (signBody message)).run outside w₁ = (.ok r, w₂) →
    (200 ≤ r.status ∧ r.status < 300) →
    (∀ signature,
      answerForm.decode r.body ≠ .ok (Base64.encodeText Base64.standard signature)) →
    ∃ e, (s.sign message).run outside w = (.error e, w₂) ∧ e.category = .unknown ∧
      e.code = .unknown
  /-- Without an answer the error is that of the request. -/
  unanswered : ∀ outside w email w₁ e w₂, s.KnownAs outside w email w₁ →
    (Web.post s.bearer (s.signUrl email) (signBody message)).run outside w₁ = (.error e, w₂) →
    (s.sign message).run outside w = (.error e, w₂)

/-- **The answers to two requests decide what is signed**, and with which error nothing is. -/
theorem signs_by_answers (s : RemoteSigner) (message : Bytes) : s.SignsByAnswers message where
  decodes _ _ hraw _ := decode_signature_eq_ok_iff hraw
  envelops _ _ hraw _ := AuthError.decode_envelope_eq_ok_iff hraw
  signs_iff _ _ _ _ := run_sign_eq_ok_iff
  posted outside w signature w' h := by
    obtain ⟨email, w₁, r, hknown, hpost, -, htext⟩ := run_sign_eq_ok_iff.mp h
    obtain ⟨before, token, request, hevents, hbefore, hbuilt⟩ := Web.posted_of_post hpost
    have hmethod := Request.method_of_build hbuilt
    have hbody := Request.body_of_build hbuilt
    refine ⟨email, w₁, before, request, r, _, _, hknown, hevents, hbefore, hmethod, ?_,
      Base64.decodeText_encodeText Base64.sound_standard message, htext, rfl⟩
    rw [hbody, readObject_signBody]
  undiscovered outside w e w₁ h hmemory hdiscover := by
    obtain ⟨hrun, -, hquiet⟩ := run_sign_of_undiscovered h hmemory hdiscover
    exact ⟨hrun, hquiet⟩
  guided e := by
    refine ⟨fun h => if_pos h, fun h => ?_⟩
    rw [guidance, if_neg h]
    rfl
  rejected outside w email w₁ r w₂ hknown hpost hstatus := by
    rw [run_sign_of_account hknown, hpost]
    exact congrArg (·, w₂) (signatureOf_of_failure hstatus)
  permission r := by
    rw [rejected_code]
    split <;> simp [*]
  category r := by
    rw [rejected_category]
    exact ⟨fun _ => AuthError.category_of_names, AuthError.category_of_names_none⟩
  recognised _ _ := Category.ofPlatformStatus?_eq_some_iff
  told r := by
    rw [rejected_message]
    exact ⟨fun _ => AuthError.message_of_tells, AuthError.message_of_tells_none⟩
  unreadable outside w email w₁ r w₂ hknown hpost hstatus hnone := by
    rw [run_sign_of_account hknown, hpost]
    cases hsignature : signatureOf r with
    | ok signature => exact absurd (signatureOf_eq_ok_iff.mp hsignature).2 (hnone signature)
    | error e =>
      obtain ⟨hcategory, hcode⟩ := unknown_of_signatureOf hstatus hsignature
      exact ⟨e, congrArg (·, w₂) hsignature, hcategory, hcode⟩
  unanswered outside w email w₁ e w₂ hknown hpost := by
    rw [run_sign_of_account hknown, hpost]

end RemoteSigner

end IdentityTokens
