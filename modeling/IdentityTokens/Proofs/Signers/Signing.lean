import IdentityTokens.Proofs.Minter.Payloads
import IdentityTokens.Proofs.Signers.Accounts

/-! # Signing as one account

What is signed is posted last, to an address that names the account, and nothing is posted before.
A token that is minted is signed by the account that it says issued it: both are asked for, one
after the other, and the account that was found the first time is found again. -/
namespace IdentityTokens

open Call

/-- The issuer and the subject of a token, each the one member of its name, are an account, and
who looks for them finds just that. -/
structure Segments.IssuedBy (s : Segments) (email : String) : Prop where
  payload : ∃ members, s.payload = Segment.encode (.object members) ∧
    members.filter (fun m => m.1 = "iss") = [("iss", .text email)] ∧
    members.filter (fun m => m.1 = "sub") = [("sub", .text email)]
  read : ∃ typed, s.readPayload IdToken.decode = .ok typed ∧ typed.issuer = email ∧
    typed.subject = email

theorem Segments.issuedBy_segments (header : JwtHeader) (email uid : String) (now : Int64)
    (claims : List (String × Json)) (tenant : Option String) (signature : Bytes) :
    (Jwt.segments header (CustomToken.issue email now uid claims tenant).toJson
      signature).IssuedBy email where
  payload := by
    have hclaims (name : String) (h : name ≠ "claims") :
        (if claims.isEmpty then [] else [("claims", Json.object claims)]).filter
          (fun m => m.1 = name) = [] := by
      split
      · rfl
      · simp [Ne.symm h]
    refine ⟨_, rfl, ?_, ?_⟩
    all_goals
      rw [List.filter_append, List.filter_append, CustomToken.issue, hclaims _ (by simp)]
      cases tenant <;> rfl
  read := by
    refine ⟨(CustomToken.issue email now uid claims tenant).asIdToken, ?_, rfl, rfl⟩
    unfold Segments.readPayload Jwt.segments
    rw [Segment.decode_encode, CustomToken.decode_asIdToken]
    rfl

namespace RemoteSigner

variable {s : RemoteSigner} {x y : Standing} {message : Bytes}

/-- What was told ends with the signature of an account for a message. The address that it was
posted for to names the account, and nothing else was posted. -/
def Signed (s : RemoteSigner) (told : List Event) (email : String) (message signature : Bytes) :
    Prop :=
  ∃ before token request response,
    told = before ++ [⟨.exchange request, some (.answered response)⟩] ∧
    (∀ e ∈ before, ¬ e.Posts) ∧
    Request.build .post (s.signUrl email) (Web.jsonHeader :: Bearer.headers token)
      (signBody message).compact = .ok request ∧
    signatureOf response = .ok signature

theorem Signed.append {es told : List Event} {email : String} {signature : Bytes}
    (h : s.Signed told email message signature) (hes : ∀ e ∈ es, ¬ e.Posts) :
    s.Signed (es ++ told) email message signature := by
  obtain ⟨before, token, request, response, rfl, hbefore, hrequest, hsignature⟩ := h
  refine ⟨es ++ before, token, request, response, (List.append_assoc ..).symm, fun e he => ?_,
    hrequest, hsignature⟩
  exact (List.mem_append.mp he).elim (hes e) (hbefore e)

/-- A token that was minted is issued by an account and signed as the same. -/
def Minted (s : RemoteSigner) (told : List Event) (email token : String) : Prop :=
  ∃ parts signature, Segments.split token = .ok parts ∧ parts.IssuedBy email ∧
    parts.readSignature = .ok signature ∧
    s.Signed told email (Text.bytes parts.signingInput) signature

/-! ## Posting -/

/-- What getting a token to post with comes to. -/
structure Bearing (s : RemoteSigner) (x y : Standing) : Prop where
  outside : y.inside = x.inside
  memory : y.memory = x.memory
  quiet : x.Quiet y
  clean : s.Clean x.told → s.Clean y.told

theorem bearing_refl (x : Standing) : s.Bearing x x := ⟨rfl, rfl, Standing.quiet_of_told rfl, id⟩

/-- What is neither sent nor kept leaves a call where it stands, but for having been told. -/
theorem bearing_tell {e : Event} (h : e.request? = none) : s.Bearing x (x.tell e) where
  outside := rfl
  memory := rfl
  quiet := by
    refine ⟨[e], rfl, fun e' he => ?_⟩
    rw [List.mem_singleton.mp he]
    rintro ⟨r, hr, -⟩
    cases h.symm.trans hr
  clean := fun hclean => hclean.append <| clean_other fun r hr => by
    cases h.symm.trans hr

theorem token_abides (bearer : Bearer) (hclean : s.Clean x.told) :
    bearer.token.Abides s.accounts s.May (fun y _ => s.Bearing x y) x := by
  cases bearer with
  | nobody => exact bearing_refl x
  | fixed token => exact bearing_refl x
  | custom =>
    refine ⟨may_of_clean hclean nofun nofun, fun a => ?_⟩
    cases a with
    | error e => exact bearing_tell rfl
    | ok token => exact bearing_tell rfl

/-- What posting comes to. -/
structure Posting (s : RemoteSigner) (url : String) (body : Json) (x y : Standing)
    (r : Except AuthError Response) : Prop where
  outside : y.inside = x.inside
  memory : y.memory = x.memory
  answered : ∀ response, r = .ok response → s.Clean y.told ∧ ∃ before token request,
    y.told = x.told ++ (before ++ [⟨.exchange request, some (.answered response)⟩]) ∧
    (∀ e ∈ before, ¬ e.Posts) ∧
    Request.build .post url (Web.jsonHeader :: Bearer.headers token) body.compact = .ok request

theorem Posting.of_error {url : String} {body : Json} {e : AuthError}
    (hout : y.inside = x.inside) (hmemory : y.memory = x.memory) :
    s.Posting url body x y (.error e) :=
  ⟨hout, hmemory, by rintro _ ⟨⟩⟩

theorem post_abides (bearer : Bearer) (url : String) (body : Json) (hclean : s.Clean x.told) :
    (Web.post bearer url body).Abides s.accounts s.May (s.Posting url body x) x := by
  refine (token_abides bearer hclean).bind ?_ fun y e hy => .of_error hy.outside hy.memory
  intro y token hy
  have hclean := hy.clean hclean
  refine abides_send ?_ ?_
  · intro fault _
    exact ⟨may_of_clean hclean nofun nofun, .of_error hy.outside hy.memory,
      .of_error hy.outside hy.memory⟩
  · intro request hrequest
    have hpost : request.method = .post := Request.method_of_build hrequest
    refine ⟨may_post hclean hpost, .of_error hy.outside hy.memory, fun outcome => ?_⟩
    cases outcome with
    | answered response =>
      refine ⟨hy.outside, hy.memory, ?_⟩
      rintro _ ⟨⟩
      obtain ⟨before, hbefore, hquiet⟩ := hy.quiet
      refine ⟨hclean.append (clean_posts ⟨request, rfl, hpost⟩), before, token, request, ?_,
        hquiet, hrequest⟩
      rw [Standing.tell_told, hbefore, List.append_assoc]
    | refused | timedOut | lost | truncated => exact .of_error hy.outside hy.memory

/-! ## Signing -/

/-- What signing a message comes to. -/
structure Signing (s : RemoteSigner) (message : Bytes) (x y : Standing)
    (r : Except AuthError Bytes) : Prop where
  outside : y.inside = false
  signed : ∀ signature, r = .ok signature → s.Clean y.told ∧
    ∃ email es, s.accountIn y.memory = some email ∧ y.told = x.told ++ es ∧
      s.Signed es email message signature
  stays : ∀ email, s.accountIn x.memory = some email → s.accountIn y.memory = some email

theorem Signing.of_error {e : AuthError} (hout : y.inside = false)
    (hstays : ∀ email, s.accountIn x.memory = some email → s.accountIn y.memory = some email) :
    s.Signing message x y (.error e) :=
  ⟨hout, by rintro _ ⟨⟩, hstays⟩

/-- **What is signed is signed as the account that is known from then on.** -/
theorem sign_abides (hout : x.inside = false) (hclean : s.Clean x.told)
    (hx : x.told = [] ∨ (s.accountIn x.memory).isSome) (message : Bytes) :
    (s.sign message).Abides s.accounts s.May (s.Signing message x) x := by
  refine (email_abides hout hclean hx).bind ?_ fun y e hy => .of_error hy.outside hy.stays
  intro y email hy
  obtain ⟨hfound, hclean⟩ := hy.found email rfl
  have hstays (z : Standing) (hz : z.memory = y.memory) :
      ∀ email, s.accountIn x.memory = some email → s.accountIn z.memory = some email := by
    intro email he
    rw [hz]
    exact hy.stays email he
  refine (post_abides s.bearer (s.signUrl email) (signBody message) hclean).bind ?_ ?_
  · intro z response hz
    have hout := hz.outside.trans hy.outside
    obtain ⟨hclean, before, token, request, htold, hbefore, hrequest⟩ := hz.answered response rfl
    refine ⟨hout, fun signature hsignature => ⟨hclean, email, ?_⟩, hstays z hz.memory⟩
    obtain ⟨es, hes, hquiet⟩ := hy.quiet
    refine ⟨es ++ (before ++ [⟨.exchange request, some (.answered response)⟩]), ?_, ?_, ?_⟩
    · rw [hz.memory]
      exact hfound
    · rw [htold, hes, List.append_assoc]
    · exact Signed.append ⟨before, token, request, response, rfl, hbefore, hrequest, hsignature⟩
        hquiet
  · intro z e hz
    exact .of_error (hz.outside.trans hy.outside) (hstays z hz.memory)

/-! ## Minting -/

/-- What minting a token comes to. -/
structure Minting (s : RemoteSigner) (x y : Standing) (r : Except AuthError String) : Prop where
  outside : y.inside = false
  minted : ∀ token, r = .ok token → s.Clean y.told ∧
    ∃ email es, s.accountIn y.memory = some email ∧ y.told = x.told ++ es ∧ s.Minted es email token

theorem Minting.of_error {e : AuthError} (hout : y.inside = false) :
    s.Minting x y (.error e) :=
  ⟨hout, by rintro _ ⟨⟩⟩

/-- What was settled beforehand leaves a call where it stands. -/
theorem abides_lift {α β : Type} {p : Pact} {P : Standing → Deed → Prop}
    {Q : Standing → Except AuthError β → Prop} {r : Except AuthError α} {f : α → Call β}
    (hok : ∀ a, r = .ok a → (f a).Abides p P Q x) (herror : ∀ e, r = .error e → Q x (.error e)) :
    ((liftM r : Call α) >>= f).Abides p P Q x := by
  cases r with
  | ok a => exact hok a rfl
  | error e => exact herror e rfl

theorem now_abides {p : Pact} {P : Standing → Deed → Prop} (h : P x (.ask .time)) :
    Call.now.Abides p P (fun y r => ∃ now, y = x.tell ⟨.time, now⟩ ∧ r = .ok now) x :=
  ⟨h, fun now => ⟨now, rfl, rfl⟩⟩

/-- **A token is issued by the account that signs it**, though the account is asked for twice. -/
theorem mint_abides (hout : x.inside = false) (hclean : s.Clean x.told)
    (hx : x.told = [] ∨ (s.accountIn x.memory).isSome) (tenant : Option String) (uid : String)
    (claims : List (String × Json)) :
    (Minter.mint ⟨.remote s, tenant⟩ uid claims).Abides s.accounts s.May (s.Minting x) x := by
  refine (email_abides hout hclean hx).bind ?_ fun y e hy => .of_error hy.outside
  intro y email hy
  obtain ⟨hfound, hclean⟩ := hy.found email rfl
  refine abides_lift (fun _ _ => abides_lift (fun _ _ => ?_) fun e _ => .of_error hy.outside)
    fun e _ => .of_error hy.outside
  refine (now_abides (may_of_clean hclean nofun nofun)).bind ?_ ?_
  · rintro _ now ⟨_, rfl, ⟨⟩⟩
    have htimed : s.Bearing y (y.tell ⟨.time, now⟩) := bearing_tell rfl
    have hknown : s.accountIn (y.tell ⟨.time, now⟩).memory = some email := by
      rw [htimed.memory, hfound]
    have hsign := sign_abides (x := y.tell ⟨.time, now⟩) hy.outside (htimed.clean hclean)
      (.inr (Option.isSome_of_eq_some hknown))
    refine (hsign _).bind ?_ fun z e hz => .of_error hz.outside
    intro z signature hz
    refine ⟨hz.outside, fun token htoken => ?_⟩
    obtain rfl := Except.ok.inj htoken
    obtain ⟨hclean, email', es, hfound', htold, hsigned⟩ := hz.signed signature rfl
    -- The account that signs was found before, so it is the one that issued the token.
    obtain rfl : email' = email := Option.some.inj (hfound'.symm.trans (hz.stays email hknown))
    obtain ⟨fs, hfs, hquiet⟩ := hy.quiet.trans htimed.quiet
    refine ⟨hclean, email', fs ++ es, hfound', ?_, ?_⟩
    · rw [htold, hfs, List.append_assoc]
    · refine ⟨_, signature, Jwt.split_assemble _ _ signature,
        Segments.issuedBy_segments _ email' uid now claims tenant signature,
        Jwt.readSignature_segments _ _ signature, ?_⟩
      rw [Jwt.signingInput_segments]
      exact hsigned.append hquiet
  · rintro _ e ⟨_, -, ⟨⟩⟩

end RemoteSigner

end IdentityTokens
