import IdentityTokens.Proofs.Call.Pacts
import IdentityTokens.Proofs.Call.Tellings
import IdentityTokens.Proofs.Clients.Tenants

/-! # What clients are asked for

Everything that a client or the client of one of its tenants can be asked for, in runs of any
length. Whatever comes of it comes of one minter or one verifier, and whoever wants to know what a
client does in a run looks at what they do. -/
namespace IdentityTokens

open Call

/-- For what a token is verified: the whole project, or one of its tenants. -/
inductive Scope where
  | project (kind : Kind)
  | tenant (id : String)

/-- Tenants have no session cookies. -/
def Scope.kind : Scope → Kind
  | .project kind => kind
  | .tenant _ => .idToken

inductive Operation where
  /-- For the whole project, or for a tenant. -/
  | mint (tenant : Option String) (uid : String) (claims : List (String × Json))
  | verify (scope : Scope) (unrevoked : Bool) (token : String)

namespace Client

def operate (c : Client) : Operation → Call (String ⊕ IdToken)
  | .mint none uid claims => Sum.inl <$> c.mint uid claims
  | .mint (some id) uid claims => do
    let T ← TenantClient.ofClient c id
    Sum.inl <$> T.mint uid claims
  | .verify (.project kind) false token => Sum.inr <$> c.verify kind token
  | .verify (.project kind) true token => Sum.inr <$> c.verifyUnrevoked kind token
  | .verify (.tenant id) false token => do
    let T ← TenantClient.ofClient c id
    Sum.inr <$> T.verify token
  | .verify (.tenant id) true token => do
    let T ← TenantClient.ofClient c id
    Sum.inr <$> T.verifyUnrevoked token

/-- The run of some operations, from what is remembered at the start. -/
def course (c : Client) (memory : Memory) (ops : List Operation) (ts : List Turn) :
    Interleaving (String ⊕ IdToken) :=
  (Interleaving.start memory (ops.map c.operate)).run ts

variable {c : Client}

/-! ## What operations are made of -/

/-- The token of a scope, before its user is asked about. -/
def accept (c : Client) : Scope → String → Call IdToken
  | .project kind, token => c.verify kind token
  | .tenant id, token => TenantClient.verify ⟨id, c⟩ token

def usersOf (c : Client) : Scope → Users
  | .project _ => c.users
  | .tenant id => if c.ownUsers then c.users else c.users.forTenant id

def minterOf (c : Client) (tenant : Option String) : Minter :=
  { c.minter with tenant := tenant.or c.minter.tenant }

/-- The client of a tenant is not made where the tenant has no name. -/
inductive Unnamed : Operation → Prop
  | mint (uid : String) (claims : List (String × Json)) : Unnamed (.mint (some "") uid claims)
  | verify (unrevoked : Bool) (token : String) : Unnamed (.verify (.tenant "") unrevoked token)

theorem operate_unnamed {op : Operation} (h : Unnamed op) :
    c.operate op = .fail (.invalidArgument .unknown "tenantID must be a non-empty string") := by
  cases h with
  | mint => rfl
  | verify unrevoked => cases unrevoked <;> rfl

theorem operate_mint {tenant : Option String} {uid : String} {claims : List (String × Json)}
    (h : ¬ Unnamed (.mint tenant uid claims)) :
    c.operate (.mint tenant uid claims) = Sum.inl <$> (c.minterOf tenant).mint uid claims := by
  cases tenant with
  | none => rfl
  | some id =>
    have hid : id ≠ "" := by
      rintro rfl
      exact h (.mint uid claims)
    obtain ⟨T, hT⟩ := TenantClient.exists_ofClient c hid
    rw [operate, hT]
    obtain rfl := TenantClient.of_ofClient hT
    rfl

theorem operate_verify {scope : Scope} {unrevoked : Bool} {token : String}
    (h : ¬ Unnamed (.verify scope unrevoked token)) :
    c.operate (.verify scope unrevoked token) = Sum.inr <$>
      if unrevoked then (c.usersOf scope).vet scope.kind (c.accept scope token)
      else c.accept scope token := by
  cases scope with
  | project kind => cases unrevoked <;> rfl
  | tenant id =>
    have hid : id ≠ "" := by
      rintro rfl
      exact h (.verify unrevoked token)
    obtain ⟨T, hT⟩ := TenantClient.exists_ofClient c hid
    cases unrevoked with
    | false =>
      rw [operate, hT]
      obtain rfl := TenantClient.of_ofClient hT
      rfl
    | true =>
      rw [operate, hT]
      obtain rfl := TenantClient.of_ofClient hT
      rfl

/-! ## What comes of operations -/

/-- A token comes of a minter. -/
theorem minted_of_mayEnd {op : Operation} {token : String}
    (h : (c.operate op).MayEnd (.ok (.inl token))) :
    ∃ tenant uid claims, op = .mint tenant uid claims ∧
      ((c.minterOf tenant).mint uid claims).MayEnd (.ok token) := by
  by_cases hunnamed : Unnamed op
  · rw [operate_unnamed hunnamed] at h
    cases Call.mayEnd_done.mp h
  cases op with
  | mint tenant uid claims =>
    rw [operate_mint hunnamed] at h
    obtain ⟨token', hends, hr⟩ := h.of_bind
    cases Call.mayEnd_done.mp hr
    exact ⟨tenant, uid, claims, rfl, hends⟩
  | verify scope unrevoked token' =>
    rw [operate_verify hunnamed] at h
    obtain ⟨t, -, hr⟩ := h.of_bind
    cases Call.mayEnd_done.mp hr

/-- A verified token was accepted by the client's verifier. -/
theorem accepted_of_mayEnd {op : Operation} {t : IdToken}
    (h : (c.operate op).MayEnd (.ok (.inr t))) :
    ∃ scope unrevoked token, op = .verify scope unrevoked token ∧
      (c.verify scope.kind token).MayEnd (.ok t) := by
  by_cases hunnamed : Unnamed op
  · rw [operate_unnamed hunnamed] at h
    cases Call.mayEnd_done.mp h
  cases op with
  | mint tenant uid claims =>
    rw [operate_mint hunnamed] at h
    obtain ⟨token', -, hr⟩ := h.of_bind
    cases Call.mayEnd_done.mp hr
  | verify scope unrevoked token =>
    rw [operate_verify hunnamed] at h
    obtain ⟨t', hends, hr⟩ := h.of_bind
    cases Call.mayEnd_done.mp hr
    refine ⟨scope, unrevoked, token, rfl, ?_⟩
    have haccept : (c.accept scope token).MayEnd (.ok t) := by
      cases unrevoked with
      | false => exact hends
      | true =>
        obtain ⟨t', hends, hrest⟩ := Call.MayEnd.of_bind hends
        obtain ⟨⟨⟩, -, hrest⟩ := hrest.of_bind
        cases Call.mayEnd_done.mp hrest
        exact hends
    cases scope with
    | project kind => exact haccept
    | tenant id =>
      obtain ⟨t', hends, hrest⟩ := Call.MayEnd.of_bind haccept
      obtain ⟨⟨⟩, -, hrest⟩ := hrest.of_bind
      cases Call.mayEnd_done.mp hrest
      exact hends

/-! ## Runs -/

section Runs

variable {memory : Memory} {ops : List Operation} {ts : List Turn} {i : Nat} {op : Operation}

/-- The call of an operation. -/
theorem call_of_op (c : Client) (hop : ops[i]? = some op) :
    (ops.map c.operate)[i]? = some (c.operate op) := by
  rw [List.getElem?_map, hop]
  rfl

/-- An operation ends after what it was told in the run. -/
theorem ends_of_course {r : Except AuthError (String ⊕ IdToken)} (hop : ops[i]? = some op)
    (hr : (c.course memory ops ts).result? i = some r) :
    (c.operate op).Ends (own i (c.course memory ops ts).events) r := by
  obtain ⟨es, hes, hends⟩ := Interleaving.ends_of_result? (c.call_of_op hop) hr
  exact (hes : own i (c.course memory ops ts).events = es) ▸ hends

theorem mayEnd_of_course {r : Except AuthError (String ⊕ IdToken)} (hop : ops[i]? = some op)
    (hr : (c.course memory ops ts).result? i = some r) : (c.operate op).MayEnd r :=
  Interleaving.mayEnd_of_result? (c.call_of_op hop) hr

/-- Where every operation abides by a pact, all of them do so in a run. -/
theorem course_abiding {p : Pact} {P : Operation → Standing → Deed → Prop}
    {Q : Operation → Standing → Except AuthError (String ⊕ IdToken) → Prop}
    (h : ∀ op, (c.operate op).Abides p (P op) (Q op) (.start memory)) (ops : List Operation)
    (ts : List Turn) :
    (c.course memory ops ts).Abiding p (fun i x d => ∃ op, ops[i]? = some op ∧ P op x d)
      fun i y r => ∃ op, ops[i]? = some op ∧ Q op y r := by
  refine Interleaving.Abiding.run (Interleaving.abiding_start fun i call hcall => ?_) ts
  rw [List.getElem?_map] at hcall
  obtain ⟨op, hop, rfl⟩ := Option.map_eq_some_iff.mp hcall
  exact (h op).mono (fun x d hd => ⟨op, hop, hd⟩) fun y r hr => ⟨op, hop, hr⟩

/-- Where every operation does only deeds of some sort, a run tells of no others. -/
theorem only_of_course {D : Operation → Deed → Prop} (h : ∀ op, (c.operate op).Only (D op))
    {e : Nat × Event} (he : e ∈ (c.course memory ops ts).events) :
    ∃ op, ops[e.1]? = some op ∧ D op (.ask e.2.question) := by
  have habides (op : Operation) : (c.operate op).Abides .free (fun _ => D op)
      (fun _ _ => True) (.start memory) :=
    (h op).abides (I := fun _ => True) (fun _ _ _ _ _ => trivial) (fun _ _ _ => id) trivial
  obtain ⟨-, hasked⟩ := (course_abiding habides ops []).asked rfl he
  exact hasked

end Runs

end Client

end IdentityTokens
