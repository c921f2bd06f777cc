import IdentityTokens.Proofs.Clients.Accounts
import IdentityTokens.Proofs.Clients.Setup

/-! # One mode for all that a client does

Whether a client is for an emulator is settled with its configuration, and then nothing that it
does depends on anything else. In front of an emulator it asks for nothing but users, by a token
that stands for no caller, and mints tokens that nobody signed; anywhere else it neither accepts
nor mints such tokens, and the configuration alone says who signs. -/
namespace IdentityTokens

open Call

/-! ## Tokens by who signs them -/

/-- The token comes apart and its header names a way to sign, and no key. -/
structure Segments.SaysSigned (s : Segments) (token algorithm : String) : Prop where
  split : Segments.split token = .ok s
  header : s.readHeader = .ok ⟨algorithm, "JWT", none⟩

theorem Jwt.saysSigned_segments (algorithm : String) (payload : Json) (signature : Bytes) :
    (segments (.ofAlgorithm algorithm) payload signature).SaysSigned
      (assemble (signingInput (.ofAlgorithm algorithm) payload) signature) algorithm where
  split := split_assemble _ _ signature
  header := by
    unfold Segments.readHeader segments
    rw [Segment.decode_encode, JwtHeader.decode_toJson]
    rfl

theorem Minter.saysSigned {m : Minter} {uid token : String} {claims : List (String × Json)}
    (h : (m.mint uid claims).MayEnd (.ok token)) :
    ∃ s : Segments, s.SaysSigned token m.signer.algorithm := by
  obtain ⟨email, now, signature, rfl⟩ := of_mint h
  exact ⟨_, Jwt.saysSigned_segments _ _ signature⟩

/-- A token that an account issued and that bears a signature for all of it before. -/
structure Segments.SignedBy (s : Segments) (email : String) (signature : Bytes) : Prop where
  issued : s.IssuedBy email
  signature : s.readSignature = .ok signature

/-- A signer that has its account and signs by itself. -/
structure Signer.SignsAs (signer : Signer) (email : String) (sign : Bytes → Except AuthError Bytes) :
    Prop where
  email : signer.email = Call.ok email
  sign : ∀ message, signer.sign message = .done (sign message)

theorem Signer.emulated_signsAs :
    Signer.emulated.SignsAs Signer.emulatedEmail fun _ => .ok (Text.bytes "signature") :=
  ⟨rfl, fun _ => rfl⟩

theorem Signer.local_signsAs (account : ServiceAccount) :
    (Signer.local account).SignsAs account.email account.sign :=
  ⟨rfl, fun _ => rfl⟩

theorem Minter.signedBy {m : Minter} {uid token email : String} {claims : List (String × Json)}
    {sign : Bytes → Except AuthError Bytes} (hsigner : m.signer.SignsAs email sign)
    (h : (m.mint uid claims).MayEnd (.ok token)) :
    ∃ (s : Segments) (signature : Bytes), s.SaysSigned token m.signer.algorithm ∧
      s.SignedBy email signature ∧ sign (Text.bytes s.signingInput) = .ok signature := by
  unfold mint at h
  obtain ⟨email', he, h⟩ := h.of_bind
  obtain ⟨-, -, h⟩ := h.of_bind
  obtain ⟨-, -, h⟩ := h.of_bind
  obtain ⟨now, -, h⟩ := h.of_bind
  obtain ⟨signature, hs, h⟩ := h.of_bind
  rw [hsigner.email] at he
  obtain rfl := Except.ok.inj (mayEnd_done.mp he)
  rw [hsigner.sign] at hs
  obtain rfl := Except.ok.inj (mayEnd_done.mp h)
  refine ⟨_, signature, Jwt.saysSigned_segments _ _ signature,
    ⟨Segments.issuedBy_segments _ email' uid now claims m.tenant signature,
      Jwt.readSignature_segments _ _ signature⟩, ?_⟩
  rw [Jwt.signingInput_segments]
  exact (mayEnd_done.mp hs).symm

/-- A verifier that looks at signatures accepts nothing that says it is signed otherwise. -/
theorem Verifier.header_of_accepted {v : Verifier} {token : String} {t : IdToken}
    (hemulator : v.emulator = false) (h : (v.verify token).MayEnd (.ok t)) :
    ∃ s header, Segments.split token = .ok s ∧ s.readHeader = .ok header ∧
      header.algorithm = "RS256" := by
  obtain ⟨header, hc⟩ := checkContent_of_mayEnd h
  obtain ⟨-, p, hp, hheader, -, rfl, -⟩ := checkContent_eq_ok_iff.mp hc
  rw [hemulator] at hheader
  obtain ⟨s, hs, hread, -⟩ := segments_of_parts hp
  exact ⟨s, p.header, hs, hread, (checkSigned_eq_ok_iff.mp hheader).1⟩

/-! ## What is asked in front of an emulator -/

/-- The request that asks an emulator for a user. Whatever the caller has to send it for, it is
sent as the owner of the project. -/
def Request.AsksEmulator (host project : String) (r : Request) : Prop :=
  ∃ (tenant : Option String) (body : String),
    Request.build .post ("http://" ++ host ++ "/identitytoolkit.googleapis.com/v1/projects/" ++
      project ++ (tenant.elim "" fun id => "/tenants/" ++ id) ++ "/accounts:lookup")
      [("content-type", "application/json"), ("authorization", "Bearer owner")] body = .ok r

/-- Nothing is sent but questions of that sort. -/
def Deed.AsksEmulator (host project : String) : Deed → Prop
  | .ask (.exchange r) => r.AsksEmulator host project
  | _ => True

/-- Nothing is sent at all. -/
def Deed.SendsNothing : Deed → Prop
  | .ask (.exchange _) => False
  | _ => True

theorem Deed.SendsNothing.asksEmulator {host project : String} {d : Deed} (h : d.SendsNothing) :
    d.AsksEmulator host project := by
  cases d with
  | ask q =>
    cases q with
    | exchange r => exact h.elim
    | _ => trivial
  | _ => trivial

theorem Verifier.only_verify_emulated {v : Verifier} (hemulator : v.emulator = true)
    (token : String) : (v.verify token).Only Deed.SendsNothing := by
  refine Only.bind (only_done _) fun p => Only.bind (only_question trivial) fun now => ?_
  refine Only.bind (only_done _) fun _ => ?_
  rw [hemulator]
  exact only_ok _

/-- Where the signer signs by itself, minting sends nothing. -/
theorem Minter.only_mint_signsAs {m : Minter} {email : String}
    {sign : Bytes → Except AuthError Bytes} (hsigner : m.signer.SignsAs email sign) (uid : String)
    (claims : List (String × Json)) : (m.mint uid claims).Only Deed.SendsNothing := by
  have hsigned (message : Bytes) : (m.signer.sign message).Only Deed.SendsNothing := by
    rw [hsigner.sign]
    exact only_done _
  unfold mint
  rw [hsigner.email]
  exact Only.bind (only_ok _) fun _ => Only.bind (only_done _) fun _ => Only.bind (only_done _)
    fun _ => Only.bind (only_question trivial) fun _ => (hsigned _).bind fun _ => only_ok _

/-- Users are asked about at the emulator, those of a tenant under its name. -/
theorem UserLookup.only_state_emulator (host project : String) (tenant : Option String)
    (uid : String) :
    (UserLookup.state ⟨.fixed Client.emulatorToken,
      "http://" ++ host ++ "/identitytoolkit.googleapis.com" ++ "/v1/projects/" ++ project, tenant⟩
      uid).Only (Deed.AsksEmulator host project) := by
  refine Only.bind (only_send trivial fun request hrequest => ?_) fun _ => only_done _
  refine ⟨tenant, (UserLookup.body uid).compact, ?_⟩
  rw [← hrequest]
  cases tenant with
  | none => simp [endpoint, Option.elim, String.append_assoc]; rfl
  | some id => simp [endpoint, Option.elim, String.append_assoc]; rfl

namespace Client

variable {config : Config} {own : Collaborators} {c : Client} {host : String}

theorem MadeOf.usersOf_emulated (h : MadeOf config own c) (husers : own.users = none)
    (hhost : config.emulatorHost = some host) (hfilled : host ≠ "") (scope : Scope) :
    ∃ tenant, c.usersOf scope = .lookup ⟨.fixed emulatorToken,
      "http://" ++ host ++ "/identitytoolkit.googleapis.com" ++ "/v1/projects/" ++ c.project,
      tenant⟩ := by
  obtain ⟨tenant, hlookup⟩ := h.usersOf_default husers scope
  rw [bearerFor, if_pos (Config.isEmulator_iff.mpr ⟨host, hhost, hfilled⟩), Config.usersHost,
    Config.filled_eq_some_iff.mpr ⟨hhost, hfilled⟩] at hlookup
  exact ⟨tenant, hlookup⟩

/-- Nothing is asked of anybody but the emulator, and of it nothing but users. -/
theorem MadeOf.only_operate_emulated (h : MadeOf config own c) (hsigner : own.signer = none)
    (husers : own.users = none) (hhost : config.emulatorHost = some host) (hfilled : host ≠ "")
    (op : Operation) : (c.operate op).Only (Deed.AsksEmulator host c.project) := by
  have hemulator : c.emulator = true := by
    rw [h.emulator]
    exact Config.isEmulator_iff.mpr ⟨host, hhost, hfilled⟩
  by_cases hunnamed : Unnamed op
  · rw [operate_unnamed hunnamed]
    exact only_fail _
  cases op with
  | mint tenant uid claims =>
    have hsigns : (c.minterOf tenant).signer.SignsAs _ _ :=
      (h.signer_emulated hemulator hsigner).symm ▸ Signer.emulated_signsAs
    rw [operate_mint hunnamed]
    exact ((Minter.only_mint_signsAs hsigns uid claims).mono
      fun _ => Deed.SendsNothing.asksEmulator).bind fun _ => only_ok _
  | verify scope unrevoked token =>
    rw [operate_verify hunnamed]
    have haccept : (c.accept scope token).Only (Deed.AsksEmulator host c.project) := by
      have hverify (kind : Kind) : (c.verify kind token).Only (Deed.AsksEmulator host c.project) :=
        (Verifier.only_verify_emulated (v := c.verifier kind) hemulator token).mono
          fun _ => Deed.SendsNothing.asksEmulator
      cases scope with
      | project kind => exact hverify kind
      | tenant id =>
        exact (hverify .idToken).bind fun _ => Only.bind (only_done _) fun _ => only_ok _
    refine Only.bind ?_ fun _ => only_ok _
    cases unrevoked with
    | false => exact haccept
    | true =>
      obtain ⟨tenant, hlookup⟩ := h.usersOf_emulated husers hhost hfilled scope
      rw [hlookup]
      refine Users.only_vet haccept (fun uid => ?_) _
      exact UserLookup.only_state_emulator host c.project tenant uid

/-! ## One mode -/

/-- The account is the one that a configuration says to sign as where there is no key at hand: the
one that is set, else the one of the credentials, else the one of the machine. That one was
remembered from the start of a run, or named by an answer in it. -/
structure StandsFor (config : Config) (bearer : Bearer) (memory : Memory)
    (events : List (Nat × Event)) (account : String) : Prop where
  set : ∀ id, config.serviceAccountId = some id → id ≠ "" → account = id
  credentials : (∀ id, config.serviceAccountId = some id → id = "") →
    ∀ credentials, config.credentials = some credentials → credentials.clientEmail ≠ "" →
      account = credentials.clientEmail
  found : (∀ id, config.serviceAccountId = some id → id = "") →
    (∀ credentials, config.credentials = some credentials → credentials.clientEmail = "") →
      memory.account = some account ∨
        ∃ e ∈ events, (remoteSigner config bearer).Names account e.2

/-- How a client goes that was set up with a configuration and with what a caller brought along,
whatever it and its tenants' clients are asked for. -/
structure OneMode (config : Config) (own : Collaborators) (c : Client) : Prop where
  emulator_iff : c.emulator = true ↔ ∃ host, config.emulatorHost = some host ∧ host ≠ ""
  /-- In front of an emulator users are all that is asked for, by a token that the caller did not
  bring along. -/
  emulatorAsked : own.signer = none → own.users = none →
    ∀ host, config.emulatorHost = some host → host ≠ "" →
    ∀ memory ops ts, ∀ e ∈ (c.course memory ops ts).events, ∀ r, e.2.request? = some r →
      r.AsksEmulator host (config.resolvedProjectId.getD "")
  emulatorMinted : c.emulator = true → own.signer = none → ∀ memory ops ts i op token,
    (ops : List Operation)[i]? = some op →
    (c.course memory ops ts).result? i = some (.ok (.inl token)) →
    ∃ s : Segments, s.SaysSigned token "none" ∧
      s.SignedBy "firebase-auth-emulator@example.com" (Text.bytes "signature")
  /-- Anywhere else no token is accepted that does not say that it is signed, -/
  accepted : c.emulator = false → ∀ memory ops ts i op t, (ops : List Operation)[i]? = some op →
    (c.course memory ops ts).result? i = some (.ok (.inr t)) →
    ∃ scope unrevoked token s header, op = .verify scope unrevoked token ∧
      Segments.split token = .ok s ∧ s.readHeader = .ok header ∧ header.algorithm = "RS256"
  /-- nor minted. -/
  minted : c.emulator = false → own.signer = none → ∀ memory ops ts i op token,
    (ops : List Operation)[i]? = some op →
    (c.course memory ops ts).result? i = some (.ok (.inl token)) →
    ∃ s : Segments, s.SaysSigned token "RS256"
  /-- A private key that is at hand signs, and then minting sends nothing. -/
  signedHere : c.emulator = false → own.signer = none → ∀ credentials,
    config.credentials = some credentials → credentials.HoldsKey →
    ∃ account, ServiceAccount.ofCredentials credentials = .ok account ∧
      ∀ memory ops ts i tenant uid claims,
        (ops : List Operation)[i]? = some (.mint tenant uid claims) →
        (∀ e ∈ IdentityTokens.own i (c.course memory ops ts).events, e.request? = none) ∧
        ∀ token, (c.course memory ops ts).result? i = some (.ok (.inl token)) →
          ∃ s signature, Segments.split token = .ok s ∧ s.SignedBy account.email signature ∧
            account.sign (Text.bytes s.signingInput) = .ok signature
  /-- Where there is none, a service signs as the account that the configuration says. -/
  signedElsewhere : c.emulator = false → own.signer = none →
    (∀ credentials, config.credentials = some credentials → ¬ credentials.HoldsKey) →
    ∀ memory ops ts i op token, (ops : List Operation)[i]? = some op →
      (c.course memory ops ts).result? i = some (.ok (.inl token)) →
      ∃ account, StandsFor config own.bearer memory (c.course memory ops ts).events account ∧
        (remoteSigner config own.bearer).Minted (IdentityTokens.own i (c.course memory ops ts).events) account
          token

section Runs

variable {memory : Memory} {ops : List Operation} {ts : List Turn} {i : Nat} {op : Operation}
  {token : String}

/-- Where the signer signs by itself, so do all tokens that are minted say. -/
theorem signedBy_of_course {email : String} {sign : Bytes → Except AuthError Bytes}
    (hsigner : c.minter.signer.SignsAs email sign) (hop : ops[i]? = some op)
    (hr : (c.course memory ops ts).result? i = some (.ok (.inl token))) :
    ∃ (s : Segments) (signature : Bytes), s.SaysSigned token c.minter.signer.algorithm ∧
      s.SignedBy email signature ∧ sign (Text.bytes s.signingInput) = .ok signature := by
  obtain ⟨tenant, uid, claims, -, hends⟩ := minted_of_mayEnd (mayEnd_of_course hop hr)
  have hminter : (c.minterOf tenant).signer.SignsAs email sign := hsigner
  exact Minter.signedBy (m := c.minterOf tenant) hminter hends

/-- Where the signer signs by itself, minting sends nothing. -/
theorem quiet_of_course {email : String} {sign : Bytes → Except AuthError Bytes}
    (hsigner : c.minter.signer.SignsAs email sign) {tenant : Option String} {uid : String}
    {claims : List (String × Json)} (hop : ops[i]? = some (.mint tenant uid claims)) {e : Event}
    (he : e ∈ IdentityTokens.own i (c.course memory ops ts).events) : e.request? = none := by
  have honly (op : Operation) : (c.operate op).Only fun d =>
      op = .mint tenant uid claims → d.SendsNothing := by
    by_cases hmint : op = .mint tenant uid claims
    · subst hmint
      refine Only.mono ?_ fun d (hd : d.SendsNothing) _ => hd
      by_cases hunnamed : Unnamed (.mint tenant uid claims)
      · rw [operate_unnamed hunnamed]
        exact only_fail _
      · have hminter : (c.minterOf tenant).signer.SignsAs email sign := hsigner
        rw [operate_mint hunnamed]
        exact (Minter.only_mint_signsAs hminter uid claims).bind fun _ => only_ok _
    · exact only_of_forall (fun d h => absurd h hmint) _
  obtain ⟨op, hop', hsends⟩ := only_of_course honly (mem_own.mp he)
  cases hop.symm.trans hop'
  have hquiet := hsends rfl
  obtain ⟨q, a⟩ := e
  cases q with
  | exchange r => exact hquiet.elim
  | _ => rfl

end Runs

/-- Who signs by a service does so as the account that is set up, or as the one of the machine. -/
theorem standsFor_of_course {memory : Memory} {ops : List Operation} {ts : List Turn}
    {account : String} {bearer : Bearer}
    (hsigner : c.minter.signer = .remote (remoteSigner config bearer))
    (h : (remoteSigner config bearer).accountIn (c.course memory ops ts).memory = some account) :
    StandsFor config bearer memory (c.course memory ops ts).events account := by
  have hin : (signingAccount? config).orElse
      (fun _ => (c.course memory ops ts).memory.account) = some account := h
  rw [signingAccount?] at hin
  constructor
  · intro id hid hne
    rw [Config.filled_eq_some_iff.mpr ⟨hid, hne⟩] at hin
    exact (Option.some.inj hin).symm
  · intro hid credentials hcredentials hne
    have hemail : Config.filled (config.credentials.map (·.clientEmail)) =
        some credentials.clientEmail := by
      rw [hcredentials]
      exact Config.filled_eq_some_iff.mpr ⟨rfl, hne⟩
    rw [Config.filled_eq_none_iff.mpr hid, hemail] at hin
    exact (Option.some.inj hin).symm
  · intro hid hempty
    have hemail : Config.filled (config.credentials.map (·.clientEmail)) = none := by
      refine Config.filled_eq_none_iff.mpr fun email he => ?_
      obtain ⟨credentials, hcredentials, rfl⟩ := Option.map_eq_some_iff.mp he
      exact hempty credentials hcredentials
    rw [Config.filled_eq_none_iff.mpr hid, hemail] at hin
    exact account_of_course hsigner hin

/-- **A client has one mode for all that it does**, whatever its configuration says and whatever
the caller brought along. -/
theorem one_mode (h : ofConfig config own = .ok c) : OneMode config own c where
  emulator_iff := by
    rw [(madeOf h).emulator]
    exact Config.isEmulator_iff
  emulatorAsked := by
    intro hsigner husers host hhost hfilled memory ops ts e he r hr
    obtain ⟨op, -, hasks⟩ :=
      only_of_course ((madeOf h).only_operate_emulated hsigner husers hhost hfilled) he
    obtain ⟨i, q, a⟩ := e
    cases q <;> cases hr
    rw [← (madeOf h).project]
    exact hasks
  emulatorMinted := by
    intro hemulator hsigner memory ops ts i op token hop hr
    have hminter := (madeOf h).signer_emulated hemulator hsigner
    have hsigns : c.minter.signer.SignsAs _ _ := hminter.symm ▸ Signer.emulated_signsAs
    obtain ⟨s, signature, hsays, hsigned, hsignature⟩ := signedBy_of_course hsigns hop hr
    rw [hminter] at hsays
    cases hsignature
    exact ⟨s, hsays, hsigned⟩
  accepted := by
    intro hemulator memory ops ts i op t hop hr
    obtain ⟨scope, unrevoked, token, hverify, hends⟩ := accepted_of_mayEnd (mayEnd_of_course hop hr)
    obtain ⟨s, header, hs, hheader, halgorithm⟩ := Verifier.header_of_accepted hemulator hends
    exact ⟨scope, unrevoked, token, s, header, hverify, hs, hheader, halgorithm⟩
  minted := by
    intro hemulator hsigner memory ops ts i op token hop hr
    obtain ⟨tenant, uid, claims, -, hends⟩ := minted_of_mayEnd (mayEnd_of_course hop hr)
    have hrs256 : c.minter.signer.algorithm = "RS256" := by
      by_cases hkey : ∃ credentials, config.credentials = some credentials ∧ credentials.HoldsKey
      · obtain ⟨credentials, hcredentials, hkey⟩ := hkey
        obtain ⟨account, -, hlocal⟩ :=
          (madeOf h).signer_local hemulator hsigner hcredentials hkey
        rw [hlocal]
        rfl
      · rw [(madeOf h).signer_remote hemulator hsigner fun credentials hcredentials hholds =>
          hkey ⟨credentials, hcredentials, hholds⟩]
        rfl
    obtain ⟨s, hsays⟩ := Minter.saysSigned hends
    exact ⟨s, hrs256 ▸ hsays⟩
  signedHere := by
    intro hemulator hsigner credentials hcredentials hkey
    obtain ⟨account, haccount, hlocal⟩ :=
      (madeOf h).signer_local hemulator hsigner hcredentials hkey
    have hsigns : c.minter.signer.SignsAs account.email account.sign :=
      hlocal.symm ▸ Signer.local_signsAs account
    refine ⟨account, haccount, fun memory ops ts i tenant uid claims hop => ⟨fun e he => ?_, ?_⟩⟩
    · exact quiet_of_course hsigns hop he
    · intro token hr
      obtain ⟨s, signature, hsays, hsigned, hsignature⟩ := signedBy_of_course hsigns hop hr
      exact ⟨s, signature, hsays.split, hsigned, hsignature⟩
  signedElsewhere := by
    intro hemulator hsigner hkey memory ops ts i op token _ hr
    have hremote := (madeOf h).signer_remote hemulator hsigner hkey
    obtain ⟨account, hknown, hminted⟩ := minted_of_course hremote hr
    exact ⟨account, standsFor_of_course hremote hknown, hminted⟩

/-- A configuration in which all that could be set is blank, but for the account of credentials
without a key. -/
def blankConfig : Config :=
  { Config.default with
    projectId := some "p"
    serviceAccountId := some ""
    emulatorHost := some ""
    credentials := some ⟨"service_account", "", "", " ", "signer@p.example", ""⟩ }

def blankClient : Client where
  project := "p"
  emulator := false
  minter := .ofSigner (.remote (remoteSigner blankConfig (.fixed "token")))
  idTokenKeys := .published (Kind.certUrl .idToken)
  sessionCookieKeys := .published (Kind.certUrl .sessionCookie)
  users := .lookup (.ofHost (.fixed "token") "https://identitytoolkit.googleapis.com" "p")
  ownUsers := false

theorem one_mode_blank :
    ofConfig blankConfig { bearer := .fixed "token" } = .ok blankClient ∧
      OneMode blankConfig { bearer := .fixed "token" } blankClient := by
  have hblank : ofConfig blankConfig { bearer := .fixed "token" } = .ok blankClient := rfl
  exact ⟨hblank, one_mode hblank⟩

end Client

end IdentityTokens
