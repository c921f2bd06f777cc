import IdentityTokens.Proofs.Clients.Modes
import IdentityTokens.Proofs.Keys.Hollow

/-! # Where tokens of bearers go

What gets something is sent bare, and what is posted is sent with the token of one bearer; one that
has to be asked for is the last that was told before. So a client sends the tokens it was given to
nobody but the service that signs and the one that knows the users, and where it is refused one,
that is the end of what it was asked for. -/
namespace IdentityTokens

open Call

/-! ## What a request says of who sends it -/

def Request.authorization (r : Request) : List String :=
  (r.headers.filter fun h => h.1 = "authorization").map (·.2)

/-- What comes of the login in an address. -/
def Url.authorization (u : Url) : List String := (u.login.map Request.basic).toList

/-- A request that gets something at an address of some sort, with no token. -/
def Request.Gets (Source : String → Prop) (r : Request) : Prop :=
  ∃ url headers, Source url ∧ (headers = [] ∨ headers = [RemoteSigner.flavorHeader]) ∧
    Request.build .get url headers "" = .ok r

/-- A request that posts something to an address of some sort, with a token if there is one. -/
def Request.PostsWith (Target : String → Prop) (token : Option String) (r : Request) : Prop :=
  ∃ url body, Target url ∧
    Request.build .post url (Web.jsonHeader :: Bearer.headers token) body = .ok r

namespace Request

variable {r : Request} {Source Target : String → Prop} {token : Option String}

theorem authorization_of_build {m : Method} {url body : String}
    {headers : List (String × String)} (h : build m url headers body = .ok r) :
    r.authorization =
      r.url.authorization ++ (headers.filter fun h => h.1.toLower = "authorization").map (·.2) := by
  obtain ⟨u, -, rfl⟩ := eq_of_build h
  have hlogin : ((loginHeaders u).filter fun h => h.1 = "authorization").map (·.2) =
      u.authorization := by
    rw [loginHeaders, Url.authorization]
    cases u.login <;> rfl
  rw [authorization, List.filter_append, List.map_append, hlogin, List.filter_map, List.map_map]
  rfl

theorem Gets.method (h : r.Gets Source) : r.method = .get := by
  obtain ⟨url, headers, -, -, hbuild⟩ := h
  exact method_of_build hbuild

/-- What gets something bears nothing but what its own address spells out. -/
theorem Gets.authorization (h : r.Gets Source) : r.authorization = r.url.authorization := by
  obtain ⟨url, headers, -, hheaders, hbuild⟩ := h
  rw [authorization_of_build hbuild]
  rcases hheaders with rfl | rfl
  · exact List.append_nil _
  · have hflavor : "metadata-flavor".toLower = "metadata-flavor" := by decide +kernel
    simp [RemoteSigner.flavorHeader, hflavor]

theorem PostsWith.method (h : r.PostsWith Target token) : r.method = .post := by
  obtain ⟨url, body, -, hbuild⟩ := h
  exact method_of_build hbuild

theorem PostsWith.authorization (h : r.PostsWith Target token) :
    r.authorization = r.url.authorization ++ (token.map ("Bearer " ++ ·)).toList := by
  obtain ⟨url, body, -, hbuild⟩ := h
  rw [authorization_of_build hbuild]
  have htype : "content-type".toLower = "content-type" := by decide +kernel
  have hname : "authorization".toLower = "authorization" := by decide +kernel
  cases token with
  | none => simp [Bearer.headers, Web.jsonHeader, htype]
  | some t => simp [Bearer.headers, Web.jsonHeader, htype, hname]

end Request

/-! ## Calls that keep tokens to themselves -/

/-- The token that a bearer gives to a call; one that the caller's own provider gives is the last
that was told. -/
inductive Bearer.Gives : Bearer → List Event → Option String → Prop
  | nobody (told : List Event) : Gives .nobody told none
  | fixed (token : String) (told : List Event) : Gives (.fixed token) told (some token)
  | custom (told : List Event) (token : String) :
      Gives .custom (told ++ [⟨.accessToken, .ok token⟩]) (some token)

/-- The last that was told is not that there is no token. -/
def Standing.Unrefused (x : Standing) : Prop :=
  ∀ e, x.told.getLast? ≠ some ⟨.accessToken, .error e⟩

/-- Where a token was refused, the call ends with the error that it was refused with. -/
def Standing.Settles {α : Type} (x : Standing) (r : Except AuthError α) : Prop :=
  ∀ e, x.told.getLast? = some ⟨.accessToken, .error e⟩ → r = .error e

/-- What a call may do where it stands that gets something at addresses of one sort, and posts to
those of another with what its bearer gives. -/
structure Bearer.May (b : Bearer) (Source Target : String → Prop) (x : Standing) (d : Deed) :
    Prop where
  unrefused : x.Unrefused
  asks : d = .ask .accessToken → b = .custom
  sends : ∀ r, d = .ask (.exchange r) →
    r.Gets Source ∨ ∃ token, b.Gives x.told token ∧ r.PostsWith Target token

/-- What gets something, and asks for no token. -/
def Deed.OnlyGets (Source : String → Prop) : Deed → Prop
  | .ask (.exchange r) => r.Gets Source
  | .ask .accessToken => False
  | _ => True

/-- Unless a token was refused before, a call sends tokens only as it may, and ends where one is
refused. -/
def Call.Confined {α : Type} (b : Bearer) (Source Target : String → Prop) (c : Call α) : Prop :=
  ∀ x : Standing, x.Unrefused → c.Abides .free (b.May Source Target) Standing.Settles x

section Confined

variable {α β : Type} {b : Bearer} {Source Target : String → Prop} {x : Standing}

theorem Standing.unrefused_start (m : Memory) : (Standing.start m).Unrefused := by
  intro e h
  cases h

theorem Standing.unrefused_tell {e : Event} (h : e.question ≠ .accessToken) :
    (x.tell e).Unrefused := by
  intro e' he
  rw [Standing.tell_told, List.getLast?_concat] at he
  cases he
  exact h rfl

theorem Standing.Unrefused.settles (hx : x.Unrefused) (r : Except AuthError α) : x.Settles r :=
  fun e he => absurd he (hx e)

theorem Standing.Settles.unrefused {a : α} (h : x.Settles (.ok a)) : x.Unrefused :=
  fun e he => nomatch h e he

theorem Standing.Settles.error {e : AuthError} (h : x.Settles (.error e : Except AuthError α)) :
    x.Settles (.error e : Except AuthError β) := by
  intro e' he
  cases h e' he
  rfl

theorem Call.confined_done (r : Except AuthError α) : (done r).Confined b Source Target :=
  fun _ hx => hx.settles r

theorem Call.Only.confined {c : Call α} (hc : c.Only (Deed.OnlyGets Source)) :
    c.Confined b Source Target := by
  intro x hx
  refine (hc.abides (I := fun told => ∀ e, told.getLast? ≠ some ⟨.accessToken, .error e⟩) ?_ ?_
    hx).mono (fun _ _ => id) fun y r (hy : y.Unrefused) => hy.settles r
  · intro es q a _ hq e he
    rw [List.getLast?_concat] at he
    cases he
    exact hq
  · intro y d hy hd
    refine ⟨hy, ?_, ?_⟩
    · rintro rfl
      exact hd.elim
    · rintro r rfl
      exact .inl hd

theorem Call.Confined.bind {c : Call α} {f : α → Call β} (hc : c.Confined b Source Target)
    (hf : ∀ a, (f a).Confined b Source Target) : (c >>= f).Confined b Source Target :=
  fun x hx => (hc x hx).bind (fun y a hy => hf a y hy.unrefused) fun _ _ hy => hy.error

theorem Web.confined_post {url : String} (htarget : Target url) (body : Json) :
    (Web.post b url body).Confined b Source Target := by
  intro x hx
  -- With the token at hand, where it is the last that was told if it had to be asked for.
  have hsend (y : Standing) (token : Option String) (hy : y.Unrefused)
      (hgives : b.Gives y.told token) :
      (Web.send (Request.build .post url (Web.jsonHeader :: Bearer.headers token)
        body.compact)).Abides .free (b.May Source Target) Standing.Settles y := by
    refine abides_send ?_ ?_
    · intro fault _
      refine ⟨⟨hy, nofun, nofun⟩, Standing.Unrefused.settles ?_ _, Standing.Unrefused.settles ?_ _⟩
      all_goals exact Standing.unrefused_tell Question.noConfusion
    · intro request hrequest
      refine ⟨⟨hy, nofun, ?_⟩, Standing.Unrefused.settles ?_ _,
        fun _ => Standing.Unrefused.settles ?_ _⟩
      on_goal 2 => exact Standing.unrefused_tell Question.noConfusion
      on_goal 2 => exact Standing.unrefused_tell Question.noConfusion
      rintro r ⟨⟩
      exact .inr ⟨token, hgives, url, body.compact, htarget, hrequest⟩
  cases b with
  | nobody => exact hsend x none hx (.nobody _)
  | fixed token => exact hsend x (some token) hx (.fixed token _)
  | custom =>
    refine ⟨⟨hx, fun _ => rfl, nofun⟩, fun a => ?_⟩
    cases a with
    | ok token =>
      refine hsend (x.tell ⟨.accessToken, .ok token⟩) (some token) ?_ (.custom _ _)
      intro e he
      rw [Standing.tell_told, List.getLast?_concat] at he
      cases he
    | error e =>
      intro e' he
      rw [Standing.tell_told, List.getLast?_concat] at he
      cases he
      rfl

end Confined

/-! ## What clients are made of -/

section Parts

variable {b : Bearer} {Source Target : String → Prop}

theorem Deed.GetsKeys.onlyGets {source : KeySource} {d : Deed} (h : d.GetsKeys source)
    (hsource : ∀ url, source = .published url → Source url) : d.OnlyGets Source := by
  cases d with
  | ask q =>
    cases q with
    | exchange r =>
      obtain ⟨url, hurl, hr⟩ := h
      exact ⟨url, [], hsource url hurl, .inl rfl, hr⟩
    | accessToken => exact h trivial
    | _ => trivial
  | _ => trivial

theorem Verifier.confined_verify {v : Verifier}
    (hkeys : ∀ url, v.keys = .published url → Source url) (token : String) :
    (v.verify token).Confined b Source Target :=
  ((v.only_verify token).mono fun _ hd => hd.onlyGets hkeys).confined

theorem RemoteSigner.only_gets {s : RemoteSigner} (hsource : Source s.accountUrl) :
    s.email.Only (Deed.OnlyGets Source) := by
  have hdiscover : s.discover.Only (Deed.OnlyGets Source) := by
    refine (only_send trivial fun request hrequest => ?_).bind fun _ => only_done _
    exact ⟨s.accountUrl, _, hsource, .inr rfl, hrequest⟩
  have hremembered : s.remembered.Only (Deed.OnlyGets Source) := by
    refine (only_memory trivial).bind fun m => ?_
    split
    · exact only_ok _
    · exact hdiscover.bind fun email => (only_remember trivial _).bind fun _ => only_ok email
  unfold RemoteSigner.email
  split
  · exact only_ok _
  · refine (only_memory trivial).bind fun m => ?_
    split
    · exact only_ok _
    · exact (hremembered.behind trivial trivial).mapError _

theorem RemoteSigner.confined_sign {s : RemoteSigner} (hsource : Source s.accountUrl)
    (htarget : ∀ email, Target (s.signUrl email)) (message : Bytes) :
    (s.sign message).Confined s.bearer Source Target :=
  (only_gets hsource).confined.bind fun email =>
    (Web.confined_post (htarget email) _).bind fun _ => confined_done _

/-- Who signs by a service does so by one bearer, and at addresses of one sort. -/
def Signer.Within (b : Bearer) (Source Target : String → Prop) (signer : Signer) : Prop :=
  ∀ s, signer = .remote s →
    s.bearer = b ∧ Source s.accountUrl ∧ ∀ email, Target (s.signUrl email)

theorem Minter.confined_mint {m : Minter} (h : m.signer.Within b Source Target) (uid : String)
    (claims : List (String × Json)) : (m.mint uid claims).Confined b Source Target := by
  have hemail : m.signer.email.Confined b Source Target := by
    cases hsigner : m.signer with
    | emulated => exact confined_done _
    | «local» account => exact confined_done _
    | remote s => exact (RemoteSigner.only_gets (h s hsigner).2.1).confined
    | custom algorithm => exact ((only_question trivial).bind only_done).confined
  have hsign (message : Bytes) : (m.signer.sign message).Confined b Source Target := by
    cases hsigner : m.signer with
    | emulated => exact confined_done _
    | «local» account => exact confined_done _
    | remote s =>
      obtain ⟨rfl, hsource, htarget⟩ := h s hsigner
      exact s.confined_sign hsource htarget message
    | custom algorithm => exact ((only_question trivial).bind only_done).confined
  refine hemail.bind fun email => (confined_done _).bind fun _ => (confined_done _).bind fun _ => ?_
  have hnow : Call.now.Confined b Source Target := (only_question trivial).confined
  exact hnow.bind fun now => (hsign _).bind fun _ => confined_done _

/-- Who looks users up does so by one bearer, and at addresses of one sort. -/
def Users.Within (b : Bearer) (Target : String → Prop) (users : Users) : Prop :=
  ∀ l, users = .lookup l → l.bearer = b ∧ Target l.endpoint

theorem Users.confined_vet {users : Users} (h : users.Within b Target) {plain : Call IdToken}
    (hplain : plain.Confined b Source Target) (kind : Kind) :
    (users.vet kind plain).Confined b Source Target := by
  have hstate (uid : String) : (users.state uid).Confined b Source Target := by
    cases users with
    | custom => exact ((only_question trivial).bind only_done).confined
    | lookup l =>
      obtain ⟨rfl, htarget⟩ := h l rfl
      exact (Web.confined_post htarget _).bind fun _ => confined_done _
  exact hplain.bind fun t => ((hstate t.uid).bind fun _ => confined_done _).bind fun _ =>
    confined_done _

/-- All that a client does it does by one bearer, and at addresses of two sorts. -/
structure Client.Within (b : Bearer) (Source Target : String → Prop) (c : Client) : Prop where
  signer : c.minter.signer.Within b Source Target
  keys : ∀ kind url, c.keys kind = .published url → Source url
  users : ∀ scope, (c.usersOf scope).Within b Target

theorem Client.Within.confined_operate {c : Client} (h : c.Within b Source Target)
    (op : Operation) : (c.operate op).Confined b Source Target := by
  by_cases hunnamed : Unnamed op
  · rw [operate_unnamed hunnamed]
    exact confined_done _
  cases op with
  | mint tenant uid claims =>
    have hsigner : (c.minterOf tenant).signer.Within b Source Target := h.signer
    rw [operate_mint hunnamed]
    exact (Minter.confined_mint hsigner uid claims).bind fun _ => confined_done _
  | verify scope unrevoked token =>
    have haccept : (c.accept scope token).Confined b Source Target := by
      have hverify (kind : Kind) : (c.verify kind token).Confined b Source Target :=
        (c.verifier kind).confined_verify (h.keys kind) token
      cases scope with
      | project kind => exact hverify kind
      | tenant id =>
        exact (hverify .idToken).bind fun _ => (confined_done _).bind fun _ => confined_done _
    rw [operate_verify hunnamed]
    refine Confined.bind ?_ fun _ => confined_done _
    cases unrevoked with
    | false => exact haccept
    | true => exact Users.confined_vet (h.users scope) haccept _

end Parts

/-! ## Where a configuration sends -/

namespace Client

/-- The addresses where a client gets something: the account of its machine, and keys. -/
inductive Source (config : Config) (own : Collaborators) : String → Prop
  | account : Source config own
      (config.metadataHost ++ "/computeMetadata/v1/instance/service-accounts/default/email")
  | idTokenKeys : Source config own config.idTokenCertUrl
  | sessionCookieKeys : Source config own config.sessionCookieCertUrl
  /-- What the caller brought along may be published keys too. -/
  | ownKeys {url : String} (h : own.idTokenKeys = some (.published url) ∨
      own.sessionCookieKeys = some (.published url)) : Source config own url

/-- The addresses that a client posts to: where accounts sign, and where users are known. -/
inductive Target (config : Config) (project : String) : String → Prop
  | signing (hreal : config.isEmulator = false) (email : String) : Target config project
      (config.iamHost ++ "/v1/projects/-/serviceAccounts/" ++ email ++ ":signBlob")
  | users : Target config project
      (config.usersHost ++ "/v1/projects/" ++ project ++ "/accounts:lookup")
  | tenantUsers (id : String) : Target config project
      (config.usersHost ++ "/v1/projects/" ++ project ++ "/tenants/" ++ id ++ "/accounts:lookup")

variable {config : Config} {own : Collaborators} {c : Client}

theorem of_defaultSigner {bearer : Bearer} {s : RemoteSigner}
    (h : defaultSigner config bearer = .ok (.remote s)) :
    config.isEmulator = false ∧ s = remoteSigner config bearer := by
  rw [defaultSigner] at h
  split at h
  · cases h
  rename_i hreal
  split at h
  · rename_i credentials _
    rcases haccount : ServiceAccount.ofCredentials credentials with e | account
    all_goals
      rw [haccount] at h
      cases h
  · cases h
    exact ⟨Bool.eq_false_iff.mpr hreal, rfl⟩

/-- A client sends only where its configuration says, unless the caller brought along somebody
else who does. -/
theorem MadeOf.within (h : MadeOf config own c) (hsigner : ∀ s, own.signer ≠ some (.remote s))
    (husers : ∀ l, own.users ≠ some (.lookup l)) :
    c.Within (bearerFor config own.bearer) (Source config own) (Target config c.project) where
  signer := by
    intro s hs
    rcases hown : own.signer with _ | signer
    · have hdefault := h.signer hown
      rw [hs] at hdefault
      obtain ⟨hreal, rfl⟩ := of_defaultSigner hdefault
      exact ⟨rfl, .account, fun email => .signing hreal email⟩
    · rw [← h.ownSigner signer hown, hs] at hown
      exact absurd hown (hsigner s)
  keys := by
    intro kind url hurl
    rw [h.keys] at hurl
    have hbrought {brought : Option KeySource} {usual : String}
        (hkeys : brought.getD (.published usual) = .published url) :
        brought = some (.published url) ∨ url = usual := by
      cases brought with
      | none => exact .inr (KeySource.published.inj hkeys).symm
      | some source => exact .inl (congrArg some hkeys)
    cases kind with
    | idToken =>
      rcases hbrought hurl with hown | rfl
      · exact .ownKeys (.inl hown)
      · exact .idTokenKeys
    | sessionCookie =>
      rcases hbrought hurl with hown | rfl
      · exact .ownKeys (.inr hown)
      · exact .sessionCookieKeys
  users := by
    intro scope l hl
    rcases hown : own.users with _ | users
    · obtain ⟨tenant, hlookup⟩ := h.usersOf_default hown scope
      cases hlookup.symm.trans hl
      cases tenant with
      | none => exact ⟨rfl, .users⟩
      | some id => exact ⟨rfl, .tenantUsers id⟩
    · have hsame : c.usersOf scope = users := by
        have husers : c.users = users := by
          rw [h.users, hown, Option.getD_some]
        have howned : c.ownUsers = true := by
          rw [h.ownUsers, hown]
          rfl
        cases scope with
        | project kind => exact husers
        | tenant id => exact (if_pos howned).trans husers
      rw [hsame] at hl
      rw [hl] at hown
      exact absurd hown (husers l)

/-! ## Runs -/

/-- Where the tokens go that a client was given, whatever it and its tenants' clients are asked
for. -/
structure KeepsTokens (config : Config) (own : Collaborators) (c : Client) : Prop where
  /-- What gets something bears no token, and nothing else but a login that its own address
  spells out. -/
  got : ∀ memory ops ts, ∀ e ∈ (c.course memory ops ts).events, ∀ r, e.2.request? = some r →
    r.method = .get → r.Gets (Source config own) ∧ r.authorization = r.url.authorization
  /-- What is posted is posted where accounts sign or users are known, with the token that was
  given for it. -/
  posted : ∀ memory ops ts i before r a after,
    IdentityTokens.own i (c.course memory ops ts).events =
      before ++ ⟨.exchange r, a⟩ :: after → r.method = .post →
    ∃ token, (bearerFor config own.bearer).Gives before token ∧
      r.PostsWith (Target config c.project) token ∧
      r.authorization = r.url.authorization ++ (token.map ("Bearer " ++ ·)).toList
  /-- Where a token is refused, nothing comes after, and what was asked for fails with the same
  error. -/
  refused : ∀ memory ops ts i before e after,
    IdentityTokens.own i (c.course memory ops ts).events =
      before ++ ⟨.accessToken, .error e⟩ :: after →
    after = [] ∧ (c.course memory ops ts).result? i = some (.error e)
  /-- In front of an emulator the caller is not asked for a token, -/
  asked : ∀ memory ops ts, ∀ e ∈ (c.course memory ops ts).events,
    e.2.question = .accessToken → c.emulator = false ∧ own.bearer = .custom
  /-- and the caller's is not sent either. -/
  emulated : c.emulator = true → ∀ memory ops ts, ∀ e ∈ (c.course memory ops ts).events,
    ∀ r, e.2.request? = some r → r.method = .post →
      r.PostsWith (Target config c.project) (some "owner") ∧
        r.authorization = r.url.authorization ++ ["Bearer owner"]

section Runs

variable {b : Bearer} {Source Target : String → Prop} {memory : Memory} {ops : List Operation}
  {ts : List Turn} {i : Nat}

theorem Within.abiding (h : c.Within b Source Target) (memory : Memory) (ops : List Operation)
    (ts : List Turn) : (c.course memory ops ts).Abiding .free
      (fun i x d => ∃ op, ops[i]? = some op ∧ b.May Source Target x d)
      fun i y r => ∃ op, ops[i]? = some op ∧ y.Settles r :=
  course_abiding (fun op => h.confined_operate op _ (Standing.unrefused_start memory)) ops ts

/-- What a call asks it may ask after all that it was told before. -/
theorem Within.told (h : c.Within b Source Target) {before after : List Event} {e : Event}
    (he : IdentityTokens.own i (c.course memory ops ts).events = before ++ e :: after) :
    ∃ op x, ops[i]? = some op ∧ x.told = before ∧ b.May Source Target x (.ask e.question) := by
  obtain ⟨x, hx, op, hop, hmay⟩ := (h.abiding memory ops []).told rfl ts he
  exact ⟨op, x, hop, hx, hmay⟩

theorem Within.sent (h : c.Within b Source Target) {before after : List Event} {r : Request}
    {a : Option Outcome}
    (he : IdentityTokens.own i (c.course memory ops ts).events =
      before ++ ⟨.exchange r, a⟩ :: after) :
    r.Gets Source ∨ ∃ token, b.Gives before token ∧ r.PostsWith Target token := by
  obtain ⟨op, x, -, rfl, hmay⟩ := h.told he
  exact hmay.sends r rfl

theorem Within.refused (h : c.Within b Source Target) {before after : List Event} {e : AuthError}
    (he : IdentityTokens.own i (c.course memory ops ts).events =
      before ++ ⟨.accessToken, .error e⟩ :: after) :
    after = [] ∧ (c.course memory ops ts).result? i = some (.error e) := by
  obtain rfl : after = [] := by
    cases after with
    | nil => rfl
    | cons e' after =>
      rw [List.append_cons] at he
      obtain ⟨op, x, -, hx, hmay⟩ := h.told he
      refine absurd ?_ (hmay.unrefused e)
      rw [hx, List.getLast?_concat]
  refine ⟨rfl, ?_⟩
  obtain ⟨op, -, hop, -⟩ := h.told he
  obtain ⟨call, hcall⟩ : ∃ call, (c.course memory ops ts).calls[i]? = some call :=
    Interleaving.exists_call (c.call_of_op hop) ts
  have hlast (x : Standing)
      (hx : x.told = IdentityTokens.own i (c.course memory ops ts).events) :
      x.told.getLast? = some ⟨.accessToken, .error e⟩ := by
    rw [hx, he, List.getLast?_concat]
  obtain ⟨x, r, hx, hr, -, -, hsettles⟩ :=
    (h.abiding memory ops ts).ended hcall fun x d hx ⟨_, _, hmay⟩ => hmay.unrefused e (hlast x hx)
  rw [hr, hsettles e (hlast x hx)]

end Runs

/-- **A client keeps the tokens to itself that it was given**, whatever its configuration is and
whoever gives it tokens, but for those it is given to. -/
theorem keepsTokens (h : ofConfig config own = .ok c)
    (hsigner : ∀ s, own.signer ≠ some (.remote s)) (husers : ∀ l, own.users ≠ some (.lookup l)) :
    KeepsTokens config own c := by
  have hwithin := (madeOf h).within hsigner husers
  have hemulator : c.emulator = true → bearerFor config own.bearer = .fixed "owner" := by
    intro hemulator
    rw [bearerFor, if_pos ((madeOf h).emulator.symm.trans hemulator)]
    rfl
  have hsent {memory : Memory} {ops : List Operation} {ts : List Turn} {e : Nat × Event}
      (he : e ∈ (c.course memory ops ts).events) {r : Request} (hr : e.2.request? = some r) :
      r.Gets (Source config own) ∨ ∃ before token,
        (bearerFor config own.bearer).Gives before token ∧
        r.PostsWith (Target config c.project) token := by
    obtain ⟨before, after, hsplit⟩ := List.append_of_mem (mem_own.mpr he)
    obtain ⟨i, q, a⟩ := e
    cases q <;> cases hr
    rcases hwithin.sent hsplit with hgets | ⟨token, hgives, hposts⟩
    · exact .inl hgets
    · exact .inr ⟨before, token, hgives, hposts⟩
  exact {
    got := by
      intro memory ops ts e he r hr hget
      rcases hsent he hr with hgets | ⟨-, token, -, hposts⟩
      · exact ⟨hgets, hgets.authorization⟩
      · exact Method.noConfusion (hget.symm.trans hposts.method)
    posted := by
      intro memory ops ts i before r a after he hpost
      rcases hwithin.sent he with hgets | ⟨token, hgives, hposts⟩
      · exact Method.noConfusion (hgets.method.symm.trans hpost)
      · exact ⟨token, hgives, hposts, hposts.authorization⟩
    refused := fun memory ops ts i before e after => hwithin.refused
    asked := by
      intro memory ops ts e he hask
      obtain ⟨before, after, hsplit⟩ := List.append_of_mem (mem_own.mpr he)
      obtain ⟨op, x, -, -, hmay⟩ := hwithin.told hsplit
      have hcustom : bearerFor config own.bearer = .custom := hmay.asks (congrArg Deed.ask hask)
      rw [bearerFor] at hcustom
      split at hcustom
      · cases hcustom
      · rename_i hreal
        exact ⟨(madeOf h).emulator.trans (Bool.eq_false_iff.mpr hreal), hcustom⟩
    emulated := by
      intro hemu memory ops ts e he r hr hpost
      rcases hsent he hr with hgets | ⟨before, token, hgives, hposts⟩
      · exact Method.noConfusion (hgets.method.symm.trans hpost)
      · rw [hemulator hemu] at hgives
        cases hgives
        exact ⟨hposts, hposts.authorization⟩ }

/-- The blank configuration goes with a caller who is asked for each token. -/
def askingClient : Client :=
  { blankClient with
    minter := .ofSigner (.remote (remoteSigner blankConfig .custom))
    users := .lookup (.ofHost .custom "https://identitytoolkit.googleapis.com" "p") }

theorem keepsTokens_asking :
    ofConfig blankConfig { bearer := .custom } = .ok askingClient ∧
      KeepsTokens blankConfig { bearer := .custom } askingClient := by
  have hasking : ofConfig blankConfig { bearer := .custom } = .ok askingClient := rfl
  exact ⟨hasking, keepsTokens hasking nofun nofun⟩

/-- The machine's account is asked for by a name and a password. -/
def loginConfig : Config :=
  { Config.default.withProjectId "p" with metadataHost := "http://user:pw@meta.test" }

def loginClient : Client :=
  { blankClient with
    minter := .ofSigner (.remote (remoteSigner loginConfig .nobody))
    users := .lookup (.ofHost .nobody "https://identitytoolkit.googleapis.com" "p") }

/-- The login goes with the request for the account. -/
theorem exists_authorized_get :
    ofConfig loginConfig {} = .ok loginClient ∧
      ∃ r ∈ (loginClient.course .empty [.mint none "u" []] (List.replicate 4
          ⟨0, false, PublishedKeys.alike 5 (some .refused)⟩)).events.filterMap (·.2.request?),
        r.method = .get ∧ r.authorization = ["Basic dXNlcjpwdw=="] := by
  refine ⟨rfl, ?_⟩
  decide +kernel

end Client

end IdentityTokens
