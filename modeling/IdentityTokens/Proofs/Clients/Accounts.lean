import IdentityTokens.Proofs.Clients.Operations
import IdentityTokens.Proofs.Signers.Signing

/-! # Accounts of clients

Verifying never touches the account that was found out, nor the gate before it. So whatever else a
client is asked for at the time, a token is minted as the account that is remembered, and that was
remembered from the start or an answer named it. -/
namespace IdentityTokens

/-- Asking and looking, and nothing else. -/
def Deed.Light : Deed → Prop
  | .ask _ => True
  | .look => True
  | _ => False

namespace Call

variable {α β : Type}

/-- Whatever it is answered, a call leaves the account as it is, and the gate before it. -/
def SparesAccount : Call α → Prop
  | .done _ => True
  | .ask _ next => ∀ a, (next a).SparesAccount
  | .look next => ∀ m, (next m).SparesAccount
  | .keep change next => (∀ m, (change m).account = m.account) ∧ next.SparesAccount
  | .enter g next => g ≠ .account ∧ ∀ entered, (next entered).SparesAccount
  | .exit g next => g ≠ .account ∧ next.SparesAccount

theorem SparesAccount.onResult {c : Call α} {f : Except AuthError α → Call β}
    (hc : c.SparesAccount) (hf : ∀ r, (f r).SparesAccount) : (c.onResult f).SparesAccount := by
  induction c with
  | done r => exact hf r
  | ask q next ih => exact fun a => ih a (hc a)
  | look next ih => exact fun m => ih m (hc m)
  | keep change next ih => exact ⟨hc.1, ih hc.2⟩
  | enter g next ih => exact ⟨hc.1, fun entered => ih entered (hc.2 entered)⟩
  | exit g next ih => exact ⟨hc.1, ih hc.2⟩

theorem SparesAccount.bind {c : Call α} {f : α → Call β} (hc : c.SparesAccount)
    (hf : ∀ a, (f a).SparesAccount) : (c >>= f).SparesAccount :=
  hc.onResult fun
    | .ok a => hf a
    | .error _ => trivial

theorem SparesAccount.behind {g : Gate} {c : Call α} (hg : g ≠ .account) (hc : c.SparesAccount) :
    (c.behind g).SparesAccount := by
  refine ⟨hg, fun entered => ?_⟩
  cases entered with
  | true => exact hc.onResult fun _ => ⟨hg, trivial⟩
  | false => trivial

theorem Only.sparesAccount {c : Call α} (h : c.Only Deed.Light) : c.SparesAccount := by
  induction c with
  | done r => trivial
  | ask q next ih => exact fun a => ih a (h.2 a)
  | look next ih => exact fun m => ih m (h.2 m)
  | keep change next ih => exact h.1.elim
  | enter g next ih => exact h.1.elim
  | exit g next ih => exact h.1.elim

/-- Who spares the account keeps every promise about it. -/
theorem SparesAccount.abides {c : Call α} (h : c.SparesAccount) (s : RemoteSigner) (x : Standing) :
    c.Abides s.accounts (fun _ _ => True) (fun _ _ => True) x := by
  induction c generalizing x with
  | done r => trivial
  | ask q next ih => exact ⟨trivial, fun a => ih a (h a) _⟩
  | look next ih => exact ⟨trivial, fun m _ => ih m (h m) _⟩
  | keep change next ih => exact ⟨trivial, fun m _ => ⟨.inl (h.1 m), ih h.2 _⟩⟩
  | enter g next ih =>
    have hg : s.accounts.gate ≠ some g := fun heq => h.1 (Option.some.inj heq).symm
    refine ⟨trivial, ?_⟩
    rw [if_neg hg]
    exact fun entered => ih entered (h.2 entered) x
  | exit g next ih =>
    have hg : s.accounts.gate ≠ some g := fun heq => h.1 (Option.some.inj heq).symm
    refine ⟨trivial, ?_⟩
    rw [if_neg hg]
    exact ih h.2 x

end Call

open Call

/-! ## Verifying -/

theorem PublishedKeys.spares_keys (kind : Kind) (url : String) :
    (PublishedKeys.keys kind url).SparesAccount := by
  have hfetch : (PublishedKeys.fetch url).SparesAccount :=
    (PublishedKeys.only_fetch trivial trivial fun _ _ => trivial).sparesAccount
  refine SparesAccount.behind nofun (SparesAccount.bind (fun _ => trivial) fun m =>
    SparesAccount.bind (fun _ => trivial) fun now => ?_)
  split
  · trivial
  refine SparesAccount.bind (hfetch.onResult fun _ => trivial) fun r => ?_
  cases r with
  | ok s =>
    refine ⟨fun m => ?_, trivial⟩
    cases kind <;> rfl
  | error e =>
    refine SparesAccount.bind (fun _ => trivial) fun m => ?_
    split <;> trivial

theorem StoredKeys.spares_keys (kind : Kind) (path : String) :
    (StoredKeys.keys kind path).SparesAccount := by
  have hread : (StoredKeys.read path).SparesAccount := by
    refine SparesAccount.bind (SparesAccount.bind (fun _ => trivial) fun a => ?_) fun r => ?_
    · cases a <;> trivial
    · cases r with
      | error f => trivial
      | ok b => exact SparesAccount.bind (c := .done (KeyDocument.read b)) trivial fun _ => trivial
  refine SparesAccount.bind (SparesAccount.bind (fun _ => trivial) fun a => ?_) fun _ =>
    SparesAccount.bind (fun _ => trivial) fun m => ?_
  · cases a <;> trivial
  split
  · trivial
  refine SparesAccount.behind nofun (SparesAccount.bind (fun _ => trivial) fun m' => ?_)
  split
  · trivial
  refine hread.bind fun s => ⟨fun m => ?_, trivial⟩
  cases kind <;> rfl

theorem KeySource.spares_keys (source : KeySource) (kind : Kind) :
    (source.keys kind).SparesAccount := by
  cases source with
  | fixed s => trivial
  | published url => exact PublishedKeys.spares_keys kind url
  | stored path => exact StoredKeys.spares_keys kind path
  | custom => exact SparesAccount.bind (fun _ => trivial) fun _ => trivial

theorem Verifier.spares_verify (v : Verifier) (token : String) : (v.verify token).SparesAccount := by
  refine SparesAccount.bind (c := .done _) trivial fun p => SparesAccount.bind (fun _ => trivial)
    fun now => SparesAccount.bind (c := .done _) trivial fun _ => ?_
  have hsigned : (v.checkSignature p.1 token).SparesAccount := by
    refine SparesAccount.bind ((v.keys.spares_keys v.kind).onResult fun _ => trivial) fun s => ?_
    split <;> trivial
  cases v.emulator with
  | true => trivial
  | false => exact hsigned.bind fun _ => trivial

theorem Users.spares_vet (users : Users) (kind : Kind) {plain : Call IdToken}
    (hplain : plain.SparesAccount) : (users.vet kind plain).SparesAccount := by
  have hstate (uid : String) : (users.state uid).SparesAccount := by
    refine Only.sparesAccount ?_
    cases users with
    | custom => exact (only_question trivial).bind only_done
    | lookup l => exact (only_post trivial trivial fun _ _ _ => trivial).bind fun _ => only_done _
  refine hplain.bind fun t => SparesAccount.bind ((hstate t.uid).bind fun _ => ?_) fun _ => ?_
  all_goals trivial

namespace Client

variable {c : Client} {s : RemoteSigner} {memory : Memory} {ops : List Operation} {ts : List Turn}
  {i : Nat}

theorem spares_accept (c : Client) (scope : Scope) (token : String) :
    (c.accept scope token).SparesAccount := by
  cases scope with
  | project kind => exact (c.verifier kind).spares_verify token
  | tenant id =>
    exact ((c.verifier .idToken).spares_verify token).bind fun _ =>
      SparesAccount.bind (c := .done _) trivial fun _ => trivial

/-! ## Minting among others -/

/-- What a client that signs by a service promises of a token that it mints. -/
def MintedAs (s : RemoteSigner) (y : Standing) (r : Except AuthError (String ⊕ IdToken)) : Prop :=
  ∀ token, r = .ok (.inl token) →
    ∃ account, s.accountIn y.memory = some account ∧ s.Minted y.told account token

theorem operate_abides (hsigner : c.minter.signer = .remote s) (op : Operation) :
    (c.operate op).Abides s.accounts (fun _ _ => True) (MintedAs s) (.start memory) := by
  by_cases hunnamed : Unnamed op
  · rw [operate_unnamed hunnamed]
    rintro token ⟨⟩
  cases op with
  | mint tenant uid claims =>
    have hminter : c.minterOf tenant = ⟨.remote s, tenant.or c.minter.tenant⟩ := by
      rw [minterOf, hsigner]
    rw [operate_mint hunnamed, hminter]
    refine abides_map ((RemoteSigner.mint_abides rfl RemoteSigner.clean_nil (.inl rfl) _ uid
      claims).mono (fun _ _ _ => trivial) fun y r hy token htoken => ?_)
    cases r with
    | error e => cases htoken
    | ok token' =>
      cases htoken
      obtain ⟨-, account, es, hfound, htold, hminted⟩ := hy.minted token rfl
      obtain rfl : y.told = es := htold.trans (List.nil_append es)
      exact ⟨account, hfound, hminted⟩
  | verify scope unrevoked token =>
    rw [operate_verify hunnamed]
    have hspares : (if unrevoked then (c.usersOf scope).vet scope.kind (c.accept scope token)
        else c.accept scope token).SparesAccount := by
      cases unrevoked with
      | false => exact c.spares_accept scope token
      | true => exact Users.spares_vet _ _ (c.spares_accept scope token)
    refine abides_map ((hspares.abides s _).mono (fun _ _ => id) fun y r _ token htoken => ?_)
    cases r <;> cases htoken

/-- **Among all that a client does, a token is minted as the account that is remembered.** -/
theorem minted_of_course (hsigner : c.minter.signer = .remote s) {token : String}
    (hr : (c.course memory ops ts).result? i = some (.ok (.inl token))) :
    ∃ account, s.accountIn (c.course memory ops ts).memory = some account ∧
      s.Minted (own i (c.course memory ops ts).events) account token := by
  obtain ⟨x, hx, op, -, hminted⟩ := (course_abiding (operate_abides hsigner) ops ts).result hr
  obtain ⟨account, hfound, hminted⟩ := hminted token rfl
  refine ⟨account, RemoteSigner.accountIn_of_bears hx.memory hfound, ?_⟩
  rwa [← hx.told]

/-- The account is remembered from the start, or was named by an answer. -/
theorem account_of_course (hsigner : c.minter.signer = .remote s) {account : String}
    (h : (c.course memory ops ts).memory.account = some account) :
    memory.account = some account ∨
      ∃ e ∈ (c.course memory ops ts).events, s.Names account e.2 := by
  induction ts using List.reverseRecOn with
  | nil => exact .inl h
  | append_singleton ts t ih =>
    have hstep : c.course memory ops (ts ++ [t]) = (c.course memory ops ts).step t :=
      Interleaving.run_concat _ ts t
    rw [hstep] at h ⊢
    have hprefix := Interleaving.events_step (c.course memory ops ts) t
    have hold (h : (c.course memory ops ts).memory.account = some account) :
        memory.account = some account ∨
          ∃ e ∈ ((c.course memory ops ts).step t).events, s.Names account e.2 := by
      refine (ih h).imp_right ?_
      rintro ⟨e, he, hnames⟩
      exact ⟨e, hprefix.subset he, hnames⟩
    rcases (course_abiding (operate_abides hsigner) ops ts).memory_step t with
      heq | ⟨x, hx, -, heq | ⟨-, -, -, account', haccount', e, he, hnames⟩⟩
    · rw [heq] at h
      exact hold h
    · exact hold (heq.symm.trans h)
    · cases haccount'.symm.trans h
      rw [Standing.see_told, hx.told] at he
      exact .inr ⟨_, hprefix.subset (mem_own.mp he), hnames⟩

end Client

end IdentityTokens
