import IdentityTokens.Proofs.Users.Revocation

/-! # Errands of clients and of their tenants' clients

A client and one of its tenants' can be sent on the same errands. They ask for different things
then, but the client of the tenant leaves behind what the client would have left: what is
remembered does not depend on the tenant. So who does something later cannot tell which of them
was sent before. -/
namespace IdentityTokens

open Call

/-! ## What is left behind -/

namespace Call

variable {α β : Type} {outside : Outside} {w : World}

/-- Calls leave the same behind if they go on from the same beginning and do so then. -/
theorem memory_run_bind {f g : α → Call β} (c : Call α)
    (h : ∀ a w, ((f a).run outside w).2.memory = ((g a).run outside w).2.memory) :
    ((c >>= f).run outside w).2.memory = ((c >>= g).run outside w).2.memory := by
  rw [run_bind, run_bind]
  rcases c.run outside w with ⟨e | a, w'⟩
  · rfl
  · exact h a w'

/-- What keeps nothing can be left out behind a call. -/
theorem memory_run_bind_of_only {f : α → Call β} (c : Call α) (hf : ∀ a, (f a).Only (· ≠ .keep)) :
    ((c >>= f).run outside w).2.memory = (c.run outside w).2.memory := by
  rw [run_bind]
  rcases c.run outside w with ⟨e | a, w'⟩
  · rfl
  · exact (hf a).memory_run outside w'

theorem memory_run_map (f : α → β) (c : Call α) :
    ((f <$> c).run outside w).2.memory = (c.run outside w).2.memory :=
  memory_run_bind_of_only c fun _ => only_ok _

end Call

theorem Signer.memory_run_sign (signer : Signer) (message message' : Bytes) (outside : Outside)
    (w : World) :
    ((signer.sign message).run outside w).2.memory =
      ((signer.sign message').run outside w).2.memory := by
  cases signer with
  | emulated => rfl
  | «local» account => rfl
  | custom algorithm =>
    have hsign (message : Bytes) : (Call.signature message).Only (· ≠ .keep) :=
      (only_question nofun).bind only_done
    exact ((hsign message).memory_run outside w).trans ((hsign message').memory_run outside w).symm
  | remote s =>
    have hpost (message : Bytes) (email : String) : (do
        let response ← Web.post s.bearer (s.signUrl email) (RemoteSigner.signBody message)
        RemoteSigner.signatureOf response : Call Bytes).Only (· ≠ .keep) :=
      (only_post nofun nofun fun _ _ _ => nofun).bind fun _ => only_done _
    exact (memory_run_bind_of_only s.email (hpost message)).trans
      (memory_run_bind_of_only s.email (hpost message')).symm

/-- The tenant of a minter does not matter to what is remembered. -/
theorem Minter.memory_run_mint (m : Minter) (tenant : Option String) (uid : String)
    (claims : List (String × Json)) (outside : Outside) (w : World) :
    (({ m with tenant := tenant }.mint uid claims).run outside w).2.memory =
      ((m.mint uid claims).run outside w).2.memory := by
  unfold mint
  refine memory_run_bind _ fun email w => memory_run_bind _ fun _ w => memory_run_bind _ fun _ w =>
    memory_run_bind _ fun now w => ?_
  refine (memory_run_bind_of_only _ fun _ => only_ok _).trans ?_
  refine Eq.trans ?_ (memory_run_bind_of_only _ fun _ => only_ok _).symm
  exact Signer.memory_run_sign _ _ _ outside w

/-- Asking about users keeps nothing. -/
theorem Users.memory_run_vet (users : Users) (kind : Kind) (plain : Call IdToken)
    {outside : Outside} {w : World} :
    ((users.vet kind plain).run outside w).2.memory = (plain.run outside w).2.memory := by
  refine memory_run_bind_of_only plain fun t => ?_
  refine Only.bind (Only.bind ?_ fun _ => only_done _) fun _ => only_ok t
  cases users with
  | custom => exact (only_question nofun).bind only_done
  | lookup l => exact (only_post nofun nofun fun _ _ _ => nofun).bind fun _ => only_done _

theorem Client.verifyUnrevoked_eq (c : Client) (kind : Kind) (token : String) :
    c.verifyUnrevoked kind token = c.users.vet kind (c.verify kind token) := rfl

theorem TenantClient.verifyUnrevoked_eq (c : TenantClient) (token : String) :
    c.verifyUnrevoked token = c.client.users.vet .idToken (c.verify token) := rfl

/-! ## Errands -/

/-- What a client and a client of a tenant can both be sent on. -/
inductive Errand where
  | mint (uid : String) (claims : List (String × Json))
  | verify (token : String)
  | verifyUnrevoked (token : String)

namespace Errand

/-- A token that was minted, or one that was verified. -/
abbrev Result := String ⊕ IdToken

end Errand

def Client.perform (c : Client) : Errand → Call Errand.Result
  | .mint uid claims => Sum.inl <$> c.mint uid claims
  | .verify token => Sum.inr <$> c.verify .idToken token
  | .verifyUnrevoked token => Sum.inr <$> c.verifyUnrevoked .idToken token

def TenantClient.perform (c : TenantClient) : Errand → Call Errand.Result
  | .mint uid claims => Sum.inl <$> c.mint uid claims
  | .verify token => Sum.inr <$> c.verify token
  | .verifyUnrevoked token => Sum.inr <$> c.verifyUnrevoked token

namespace TenantClient

variable {c : Client} {id : String} {T : TenantClient}

/-- What a client of a tenant is made of. -/
theorem of_ofClient (h : ofClient c id = .ok T) :
    T = ⟨id, { c with
      minter := { c.minter with tenant := some id }
      users := if c.ownUsers then c.users else c.users.forTenant id }⟩ := by
  obtain ⟨minter, hminter, h⟩ := ok_of_bind h
  rw [Minter.withTenant] at hminter
  split at hminter
  · cases hminter
  · cases hminter
    exact (Except.ok.inj h).symm

theorem exists_ofClient (c : Client) (hid : id ≠ "") : ∃ T, ofClient c id = .ok T := by
  rw [ofClient, Minter.withTenant, if_neg hid]
  exact ⟨_, rfl⟩

/-- **An errand leaves the same behind** whether the client or the client of a tenant is sent
on it. -/
theorem memory_run_perform (h : ofClient c id = .ok T) (errand : Errand) (outside : Outside)
    (w : World) :
    ((T.perform errand).run outside w).2.memory = ((c.perform errand).run outside w).2.memory := by
  obtain rfl := of_ofClient h
  cases errand with
  | mint uid claims =>
    rw [perform, Client.perform, memory_run_map, memory_run_map]
    exact c.minter.memory_run_mint (some id) uid claims outside w
  | verify token =>
    rw [perform, Client.perform, memory_run_map, memory_run_map]
    exact memory_run_bind_of_only _ fun _ => (only_done _).bind fun _ => only_ok _
  | verifyUnrevoked token =>
    rw [perform, Client.perform, memory_run_map, memory_run_map]
    rw [verifyUnrevoked_eq, Client.verifyUnrevoked_eq, Users.memory_run_vet, Users.memory_run_vet]
    exact memory_run_bind_of_only _ fun _ => (only_done _).bind fun _ => only_ok _

end TenantClient

/-! ## One thing after another -/

/-- What is done at a time, by whom the errand is performed or by anybody else; whether it is
cancelled, and what it is answered. -/
structure Job where
  work : Errand ⊕ Call Errand.Result
  cancelled : Bool
  outside : Outside

namespace Job

/-- What comes of all that is done by others than who performs the errands, with what they were
answered to what they asked, and what is remembered in the end. -/
def course (perform : Errand → Call Errand.Result) :
    List Job → Memory → List (Except AuthError Errand.Result × List Event) × Memory
  | [], m => ([], m)
  | ⟨.inl errand, cancelled, outside⟩ :: jobs, m =>
    course perform jobs ((perform errand).run outside (.start m cancelled)).2.memory
  | ⟨.inr call, cancelled, outside⟩ :: jobs, m =>
    let (result, w) := call.run outside (.start m cancelled)
    let (later, last) := course perform jobs w.memory
    ((result, w.events) :: later, last)

/-- Who performs the errands does not matter to others, if they leave the same behind. -/
theorem course_congr {perform perform' : Errand → Call Errand.Result}
    (h : ∀ errand outside w, ((perform errand).run outside w).2.memory =
      ((perform' errand).run outside w).2.memory) (jobs : List Job) (m : Memory) :
    course perform jobs m = course perform' jobs m := by
  induction jobs generalizing m with
  | nil => rfl
  | cons job jobs ih =>
    obtain ⟨errand | call, cancelled, outside⟩ := job
    · rw [course, course, h]
      exact ih _
    · rw [course, course]
      dsimp only
      rw [ih]

end Job

end IdentityTokens
