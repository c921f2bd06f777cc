import IdentityTokens.Proofs.Clients.Errands
import IdentityTokens.Proofs.Minter.Payloads
import IdentityTokens.Proofs.Verifier.Modes

/-! # Clients of tenants

The client of a tenant verifies as the client does that it was made from, with the same keys, and
turns away what does not name its tenant; that is settled before anybody is asked about users. It
mints tokens that name the tenant, whatever else is put into them, and it asks about users where
those of the tenant are known, unless the caller brought along somebody to ask. -/
namespace IdentityTokens

open Call Verifier

/-! ## Tokens that name a tenant -/

/-- The payload of a token is the text of an object that has the tenant for its one member of the
name `tenant_id`, or no member of that name, and who looks for the tenant finds just that. -/
def CarriesTenant (token : String) (tenant : Option String) : Prop :=
  ∃ s members, Segments.split token = .ok s ∧ s.payload = Segment.encode (.object members) ∧
    members.filter (fun m => m.1 = "tenant_id") =
      (tenant.map fun id => ("tenant_id", Json.text id)).toList ∧
    s.readPayload CustomToken.tenantForm.decode = .ok tenant

theorem Minter.carriesTenant {m : Minter} {uid token : String} {claims : List (String × Json)}
    (h : (m.mint uid claims).MayEnd (.ok token)) : CarriesTenant token m.tenant := by
  obtain ⟨email, now, signature, rfl⟩ := of_mint h
  refine ⟨_, _, Jwt.split_assemble _ _ signature, rfl, ?_, ?_⟩
  · have hclaims : (if claims.isEmpty then [] else [("claims", Json.object claims)]).filter
        (fun m => m.1 = "tenant_id") = [] := by
      split <;> rfl
    rw [List.filter_append, List.filter_append, CustomToken.issue, hclaims]
    cases m.tenant <;> rfl
  · unfold Segments.readPayload Jwt.segments
    rw [Segment.decode_encode, CustomToken.decode_tenant]
    rfl

namespace TenantClient

variable {T T' : TenantClient} {token : String} {t : IdToken}

/-- A client of a tenant may come to accept a token, whether or not it asks about the user. -/
def MayAccept (T : TenantClient) (token : String) : Prop :=
  ∃ t, (T.verify token).MayEnd (.ok t) ∨ (T.verifyUnrevoked token).MayEnd (.ok t)

/-- What is accepted for a tenant names it where it is read. -/
theorem MayAccept.named (h : T.MayAccept token) :
    ∃ s typed, Segments.split token = .ok s ∧ s.readPayload IdToken.decode = .ok typed ∧
      typed.signIn.tenant = some T.tenant := by
  obtain ⟨t, hends⟩ : ∃ t, (T.verify token).MayEnd (.ok t) := by
    obtain ⟨t, hends | hends⟩ := h
    · exact ⟨t, hends⟩
    · obtain ⟨t', hends, -⟩ := hends.of_bind
      exact ⟨t', hends⟩
  obtain ⟨verified, hverified, hends⟩ := hends.of_bind
  obtain ⟨⟨⟩, hcheck, -⟩ := hends.of_bind
  have htenant : verified.signIn.tenant = some T.tenant := by
    have hok := mayEnd_done.mp hcheck
    rw [checkTenant] at hok
    split at hok
    · assumption
    · cases hok
  obtain ⟨header, hc⟩ := checkContent_of_mayEnd hverified
  obtain ⟨-, p, hp, -, -, -, rfl⟩ := checkContent_eq_ok_iff.mp hc
  obtain ⟨s, hs, -, ht, -⟩ := segments_of_parts hp
  exact ⟨s, p.token, hs, ht, htenant⟩

theorem verify_eq (T : TenantClient) (token : String) :
    T.verify token = T.client.verify .idToken token >>= fun t =>
      if t.signIn.tenant = some T.tenant then Call.ok t else Call.fail (mismatch .idToken t) := by
  rw [verify]
  refine congrArg _ (funext fun t => ?_)
  rw [checkTenant, IdToken.tenantId?]
  split <;> rfl

section Runs

variable (T) (token : String) (outside : Outside) (w : World)

theorem run_verify_eq_ok_iff :
    ((T.verify token).run outside w).1 = .ok t ↔
      ((T.client.verify .idToken token).run outside w).1 = .ok t ∧
        t.signIn.tenant = some T.tenant := by
  rw [run_verify]
  rcases (T.client.verify .idToken token).run outside w with ⟨e | t', w'⟩
  · exact ⟨nofun, nofun⟩
  dsimp only
  rw [IdToken.tenantId?]
  split
  · rename_i htenant
    refine ⟨fun h => ⟨h, ?_⟩, And.left⟩
    cases h
    exact htenant
  · rename_i htenant
    refine iff_of_false nofun fun h => ?_
    cases h.1
    exact htenant h.2

theorem world_verify :
    ((T.verify token).run outside w).2 = ((T.client.verify .idToken token).run outside w).2 := by
  rw [run_verify]
  rcases (T.client.verify .idToken token).run outside w with ⟨e | t, w'⟩ <;> rfl

/-- Where another tenant is named, nobody is asked about the user. -/
theorem run_verifyUnrevoked_of_mismatch
    (ht : ((T.client.verify .idToken token).run outside w).1 = .ok t)
    (hne : t.signIn.tenant ≠ some T.tenant) :
    (T.verifyUnrevoked token).run outside w =
      (.error (mismatch .idToken t), ((T.client.verify .idToken token).run outside w).2) := by
  have herror := T.verify_of_mismatch token outside w ht hne
  have hworld := T.world_verify token outside w
  rw [verifyUnrevoked_eq]
  exact Users.run_vet_of_error _ _ _ _ (Prod.ext herror hworld)

end Runs

/-- No token is for two tenants. -/
theorem MayAccept.tenant_eq (h : T.MayAccept token) (h' : T'.MayAccept token) :
    T.tenant = T'.tenant := by
  obtain ⟨s, typed, hs, ht, htenant⟩ := h.named
  obtain ⟨s', typed', hs', ht', htenant'⟩ := h'.named
  cases hs.symm.trans hs'
  cases ht.symm.trans ht'
  exact Option.some.inj (htenant.symm.trans htenant')

end TenantClient

/-! ## Where users are asked about -/

/-- What is posted is posted to one address. -/
def Deed.PostsTo (url : String) : Deed → Prop
  | .ask (.exchange r) => r.method = .post →
      ∃ headers body, Request.build .post url headers body = .ok r
  | _ => True

theorem Users.only_vet {P : Deed → Prop} {users : Users} {plain : Call IdToken}
    (hplain : plain.Only P) (hstate : ∀ uid, (users.state uid).Only P) (kind : Kind) :
    (users.vet kind plain).Only P :=
  hplain.bind fun t => ((hstate t.uid).bind fun _ => only_done _).bind fun _ => only_ok t

theorem Users.only_vet_lookup (l : UserLookup) (kind : Kind) {plain : Call IdToken}
    (hplain : plain.Only Deed.BesidesLookup) :
    ((Users.lookup l).vet kind plain).Only (Deed.PostsTo l.endpoint) := by
  have hbesides : plain.Only (Deed.PostsTo l.endpoint) := by
    refine hplain.mono fun d hd => ?_
    cases d with
    | ask q =>
      cases q with
      | exchange r => exact fun hpost => absurd hpost hd
      | _ => trivial
    | _ => trivial
  refine Users.only_vet hbesides (fun uid => ?_) kind
  refine (only_post trivial trivial fun token request hr _ => ?_).bind fun _ => only_done _
  exact ⟨_, _, hr⟩

namespace Client

variable {config : Config} {own : Collaborators} {c : Client}

/-- A lookup that follows from a configuration is for a whole project. -/
theorem exists_defaultUsers (config : Config) (bearer : Bearer) (project : String) :
    ∃ l, defaultUsers config bearer project = .lookup l ∧ l.tenant = none := by
  rw [defaultUsers]
  split <;> exact ⟨_, rfl, rfl⟩

/-- What a configuration makes of minting and of asking about users. -/
theorem of_ofConfig (h : ofConfig config own = .ok c) :
    c.minter.tenant = none ∧ c.ownUsers = own.users.isSome ∧
      c.users = own.users.getD (defaultUsers config (bearerFor config own.bearer) c.project) := by
  rw [ofConfig] at h
  split at h
  all_goals
    obtain ⟨signer, -, h⟩ := ok_of_bind h
    cases h
    exact ⟨rfl, rfl, rfl⟩

theorem users_of_brought {users : Users} (h : ofConfig config own = .ok c)
    (hbrought : own.users = some users) : c.ownUsers = true ∧ c.users = users := by
  obtain ⟨-, hown, husers⟩ := of_ofConfig h
  rw [hown, husers, hbrought]
  exact ⟨rfl, rfl⟩

theorem users_of_none (h : ofConfig config own = .ok c) (hnone : own.users = none) :
    c.ownUsers = false ∧ ∃ l, c.users = .lookup l ∧ l.tenant = none := by
  obtain ⟨-, hown, husers⟩ := of_ofConfig h
  rw [hown, husers, hnone]
  exact ⟨rfl, exists_defaultUsers config (bearerFor config own.bearer) c.project⟩

end Client

/-! ## A client and one for a tenant of it -/

/-- How the client of a tenant goes by the client that it was made from, which was set up with
what a caller brought along. -/
structure Scoped (own : Collaborators) (c : Client) (id : String) (T : TenantClient) : Prop where
  /-- It does what the client does, step by step and with the same keys, and looks at the tenant
  then. -/
  verification : ∀ token, T.verify token = c.verify .idToken token >>= fun t =>
    if t.signIn.tenant = some id then Call.ok t else Call.fail (TenantClient.mismatch .idToken t)
  accepted_iff : ∀ token outside w t, ((T.verify token).run outside w).1 = .ok t ↔
    ((c.verify .idToken token).run outside w).1 = .ok t ∧ t.signIn.tenant = some id
  failed : ∀ token outside w e, ((c.verify .idToken token).run outside w).1 = .error e →
    ((T.verify token).run outside w).1 = .error e
  /-- What is asked, answered and remembered is the same. -/
  world : ∀ token outside w,
    ((T.verify token).run outside w).2 = ((c.verify .idToken token).run outside w).2
  /-- Another tenant, or none, is the end of it: even where users would be asked about, all that
  is done is what the client does to verify, -/
  mismatched : ∀ token outside w t, ((c.verify .idToken token).run outside w).1 = .ok t →
    t.signIn.tenant ≠ some id →
    ∃ e, ((T.verify token).run outside w).1 = .error e ∧ e.code = .tenantIdMismatch ∧
      e.parent = some .idTokenInvalid ∧
      (T.verifyUnrevoked token).run outside w =
        (.error e, ((c.verify .idToken token).run outside w).2)
  /-- and that is no question about users. -/
  quiet : ∀ token outside w, ∃ es,
    ((c.verify .idToken token).run outside w).2.events = w.events ++ es ∧
      ∀ e ∈ es, ¬ e.question.IsLookup
  /-- No two tenants have a token in common, whoever their clients were made from, -/
  apart : ∀ token (T' : TenantClient), T.MayAccept token → T'.MayAccept token → T'.tenant = id
  /-- and no tenant has a token that names none. -/
  tenantless : ∀ token s typed, Segments.split token = .ok s →
    s.readPayload IdToken.decode = .ok typed → typed.signIn.tenant = none → ¬ T.MayAccept token
  /-- Whatever claims are asked for, what is minted for the tenant names it, and what the client
  mints names none. -/
  minted : ∀ uid claims token, (T.mint uid claims).MayEnd (.ok token) →
    CarriesTenant token (some id)
  mintedUnscoped : ∀ uid claims token, (c.mint uid claims).MayEnd (.ok token) →
    CarriesTenant token none
  /-- Whatever others do, the client included, comes to the same, and asks the same, as if the
  client itself had been sent on the errands of the tenant's. -/
  unnoticed : ∀ jobs m, Job.course T.perform jobs m = Job.course c.perform jobs m
  /-- Whom a caller brought along to ask about users is asked about those of the tenant too. -/
  brought : ∀ users, own.users = some users → ∀ token,
    T.verifyUnrevoked token = users.vet .idToken (T.verify token) ∧
      c.verifyUnrevoked .idToken token = users.vet .idToken (c.verify .idToken token)
  /-- Otherwise all that is posted goes to the address that is made with the tenant's name. -/
  lookup : own.users = none → ∃ l : UserLookup, c.users = .lookup l ∧
    T.client.users = .lookup (l.forTenant id) ∧ ∀ token,
      (c.verifyUnrevoked .idToken token).Only
        (Deed.PostsTo (l.projectUrl ++ "/accounts:lookup")) ∧
      (T.verifyUnrevoked token).Only
        (Deed.PostsTo (l.projectUrl ++ "/tenants/" ++ id ++ "/accounts:lookup"))

/-- **The client of a tenant refines the client that it was made from**, however that one was set
up and whatever the tenant is called. -/
theorem exists_scoped {config : Config} {own : Collaborators} {c : Client} {id : String}
    (hc : Client.ofConfig config own = .ok c) (hid : id ≠ "") :
    ∃ T, TenantClient.ofClient c id = .ok T ∧ Scoped own c id T := by
  obtain ⟨T, hT⟩ := TenantClient.exists_ofClient c hid
  have hleaves := TenantClient.memory_run_perform hT
  obtain rfl := TenantClient.of_ofClient hT
  -- Apart from minting and the users it is made of the same.
  let T : TenantClient := ⟨id, { c with
    minter := { c.minter with tenant := some id }
    users := if c.ownUsers then c.users else c.users.forTenant id }⟩
  refine ⟨T, hT, ?_⟩
  exact {
    verification := T.verify_eq
    accepted_iff := fun token outside w _ => T.run_verify_eq_ok_iff token outside w
    failed := fun token outside w e he => by
      rw [T.run_verify_of_error token outside w he]
      exact he
    world := T.world_verify
    mismatched := fun token outside w t ht hne =>
      ⟨_, T.verify_of_mismatch token outside w ht hne, rfl, rfl,
        T.run_verifyUnrevoked_of_mismatch token outside w ht hne⟩
    quiet := fun token outside w => (c.only_verify .idToken token).run outside w
    apart := fun token T' h h' => h'.tenant_eq h
    tenantless := fun token s typed hs ht hnone h => by
      obtain ⟨s', typed', hs', ht', htenant'⟩ := h.named
      cases hs.symm.trans hs'
      cases ht.symm.trans ht'
      cases hnone.symm.trans htenant'
    minted := fun uid claims token => Minter.carriesTenant
    mintedUnscoped := fun uid claims token h => (Client.of_ofConfig hc).1 ▸ Minter.carriesTenant h
    unnoticed := Job.course_congr hleaves
    brought := fun users hbrought token => by
      obtain ⟨hown, husers⟩ := Client.users_of_brought hc hbrought
      have htenants : T.client.users = users := (if_pos hown).trans husers
      rw [TenantClient.verifyUnrevoked_eq, Client.verifyUnrevoked_eq, htenants, husers]
      exact ⟨rfl, rfl⟩
    lookup := fun hnone => by
      obtain ⟨hown, l, husers, hproject⟩ := Client.users_of_none hc hnone
      have htenants : T.client.users = .lookup (l.forTenant id) :=
        (if_neg (by simp [hown])).trans (congrArg (Users.forTenant · id) husers)
      have hendpoint : l.endpoint = l.projectUrl ++ "/accounts:lookup" := by
        rw [UserLookup.endpoint, hproject]
      refine ⟨l, husers, htenants, fun token => ?_⟩
      rw [TenantClient.verifyUnrevoked_eq, Client.verifyUnrevoked_eq, htenants, husers, ← hendpoint]
      exact ⟨Users.only_vet_lookup l _ (c.only_verify .idToken token),
        Users.only_vet_lookup (l.forTenant id) _ (T.only_verify token)⟩ }

def emulatorConfig : Config := (Config.default.withProjectId "p").withEmulatorHost "localhost:9099"

/-- The client for an emulator, with nothing brought along. -/
def emulatorClient : Client where
  project := "p"
  emulator := true
  minter := .ofSigner .emulated
  idTokenKeys := .published (Kind.certUrl .idToken)
  sessionCookieKeys := .published (Kind.certUrl .sessionCookie)
  users := .lookup (.ofEmulator (.fixed "owner") "localhost:9099" "p")
  ownUsers := false

def emulatorTenantClient : TenantClient where
  tenant := "t"
  client := { emulatorClient with
    minter := ⟨.emulated, some "t"⟩
    users := emulatorClient.users.forTenant "t" }

theorem exists_scoped_emulated :
    Client.ofConfig emulatorConfig {} = .ok emulatorClient ∧
      TenantClient.ofClient emulatorClient "t" = .ok emulatorTenantClient ∧
      Scoped {} emulatorClient "t" emulatorTenantClient := by
  have hc : Client.ofConfig emulatorConfig {} = .ok emulatorClient := rfl
  have hT : TenantClient.ofClient emulatorClient "t" = .ok emulatorTenantClient := rfl
  obtain ⟨T, hT', hscoped⟩ := exists_scoped hc (show "t" ≠ "" by decide)
  obtain rfl := Except.ok.inj (hT.symm.trans hT')
  exact ⟨hc, hT, hscoped⟩

end IdentityTokens
